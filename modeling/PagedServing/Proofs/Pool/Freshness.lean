import PagedServing.Proofs.OrderedMap
import PagedServing.Proofs.Pool.Operations

/-! # Hits and what blocks hold

The registry says where to look for a hash, and a block notes what it was registered for last. The
two are written apart. So a hit holds what was looked up as long as no block gets a new hash while
it can still be found under another one.
-/

namespace PagedServing.Pool

variable {p q : Pool} {id b hash : Int} {tokens : List Int} {n : Int} {count : Nat}

/-- What a block was registered for last: the hash and the tokens. -/
def label? (p : Pool) (id : Int) : Option (Int × List Int) :=
  (p.block? id).map fun block => (block.hash, block.tokens)

/-- What is found holds what was looked up. -/
def Current (p : Pool) : Prop :=
  ∀ hash tokens b, p.lookup? hash tokens = some b → p.label? b = some (hash, tokens)

/-- A lookup under the hash finds the block of a number, if it is for the right tokens. -/
def Leads (p : Pool) (hash id : Int) : Prop :=
  ∃ tokens b, p.lookup? hash tokens = some b ∧ p.Alias b id

/-- The blocks that are handed out if so many are asked for. -/
def handed (p : Pool) (n : Int) : List Int :=
  if n ≤ p.freeCount then p.free.take n.toNat else []

namespace Operation

/-- No block gets a new hash while a lookup under another one leads to it. Handing out a block takes
    its hash away and forgets the entry for it, but only if the entry has the number that counts from
    the first block. -/
def Clean (p : Pool) : Operation → Prop
  | register id hash _ => ∀ hash', p.Leads hash' id → hash' = hash
  | allocate n => ∀ id ∈ p.handed n, ∀ hash, p.Leads hash id →
      hash = noHash ∨ p.registry.get? hash = some id
  | release _ | share _ | revive _ | lookup _ _ => True

end Operation

/-- Each operation is clean where it is carried out. -/
def Careful (p : Pool) : List Operation → Prop
  | [] => True
  | operation :: rest => operation.Clean p ∧ (operation.run.after p).Careful rest

theorem Leads.mem_keys (leads : p.Leads hash id) : hash ∈ p.registry.keys := by
  obtain ⟨tokens, b, found, -⟩ := leads
  exact List.mem_map_of_mem (OrderedMap.mem_of_get? (lookup?_eq_some_iff.mp found).1)

theorem leads_iff_of_get? (entered : p.registry.get? hash = some b) :
    p.Leads hash id ↔ b ≠ -1 ∧ (p.block? b).isSome ∧ p.Alias b id := by
  constructor
  · rintro ⟨tokens, b', found, same⟩
    obtain ⟨entered', visible, holds⟩ := lookup?_eq_some_iff.mp found
    cases entered.symm.trans entered'
    obtain ⟨block, named, -⟩ := Option.map_eq_some_iff.mp holds
    exact ⟨visible, by simp [named], same⟩
  · rintro ⟨visible, some, same⟩
    obtain ⟨block, named⟩ := Option.isSome_iff_exists.mp some
    exact ⟨block.tokens, b, lookup?_eq_some_iff.mpr ⟨entered, visible, by simp [named]⟩, same⟩

instance (p : Pool) (hash id : Int) : Decidable (p.Leads hash id) :=
  match entered : p.registry.get? hash with
  | none => isFalse fun ⟨_, _, found, _⟩ => nomatch entered.symm.trans (lookup?_eq_some_iff.mp found).1
  | some _ => decidable_of_iff _ (leads_iff_of_get? entered).symm

/-- Only the hashes in the registry have to be looked at. -/
instance (p : Pool) : (operation : Operation) → Decidable (operation.Clean p)
  | .register id hash _ =>
      decidable_of_iff (∀ hash' ∈ p.registry.keys, p.Leads hash' id → hash' = hash)
        ⟨fun clean hash' leads => clean hash' leads.mem_keys leads, fun clean hash' _ => clean hash'⟩
  | .allocate n =>
      decidable_of_iff (∀ id ∈ p.handed n, ∀ hash ∈ p.registry.keys, p.Leads hash id →
          hash = noHash ∨ p.registry.get? hash = some id)
        ⟨fun clean id member hash leads => clean id member hash leads.mem_keys leads,
          fun clean id member hash _ => clean id member hash⟩
  | .release _ | .share _ | .revive _ | .lookup _ _ => inferInstanceAs (Decidable True)

instance decidableCareful :
    (p : Pool) → (operations : List Operation) → Decidable (p.Careful operations)
  | _, [] => isTrue trivial
  | p, operation :: rest =>
      have := decidableCareful (operation.run.after p) rest
      inferInstanceAs (Decidable (_ ∧ _))

/-- The registry, and the labels of all blocks. -/
def labels (p : Pool) : OrderedMap Int Int × List (Int × List Int) :=
  (p.registry, p.blocks.map fun block => (block.hash, block.tokens))

theorem label?_eq_get? (p : Pool) (id : Int) : p.label? id = Offset.get? p.labels.2 id := by
  simp only [label?, block?, Offset.get?, labels, List.length_map]
  cases Offset.resolve p.blocks.length id <;> simp

theorem lookup?_iff_label : p.lookup? hash tokens = some b ↔
    p.registry.get? hash = some b ∧ b ≠ -1 ∧ (p.label? b).map (·.2) = some tokens := by
  rw [lookup?_eq_some_iff, label?, Option.map_map]
  rfl

theorem Current.hash_eq {hash' : Int} (current : p.Current) (entered : p.registry.get? hash = some b)
    (visible : b ≠ -1) (label : p.label? b = some (hash', tokens)) : hash' = hash := by
  have held := current hash tokens b (lookup?_iff_label.mpr ⟨entered, visible, by simp [label]⟩)
  rw [label, Option.some.injEq, Prod.mk.injEq] at held
  exact held.1

theorem label?_congr (same : q.labels = p.labels) (id : Int) : q.label? id = p.label? id := by
  rw [label?_eq_get?, label?_eq_get?, same]

theorem current_congr (same : q.labels = p.labels) : q.Current ↔ p.Current := by
  have registry : q.registry = p.registry := congrArg Prod.fst same
  simp only [Current, lookup?_iff_label, registry, label?_congr same]

theorem label?_of_alias (same : p.Alias b id) : p.label? b = p.label? id :=
  congrArg (Option.map _) same.block?

section Labels

variable {l : OrderedMap Int Int × List (Int × List Int)}

theorem labels_updateBlock {f : Block → Block} (same : p.labels = l)
    (kept : ∀ block, ((f block).hash, (f block).tokens) = (block.hash, block.tokens)) :
    (p.updateBlock id f).labels = l := by
  subst same
  refine Prod.ext (updateBlock_registry p id f) ?_
  show (p.updateBlock id f).blocks.map _ = p.blocks.map _
  unfold updateBlock
  split
  · refine List.ext_getElem? fun i => ?_
    rw [List.getElem?_map, List.getElem?_map, List.getElem?_modify, Option.map_eq_map, Option.map_map]
    refine congrArg (Option.map · _) (funext fun block => ?_)
    simp only [Function.comp_apply]
    split
    · exact kept block
    · rfl
  · rfl

theorem shareOne_labels (id : Int) : (shareOne id).Preserves fun p => p.labels = l := by
  intro p same
  simp only [shareOne, Action.yields_bind, Action.yields_get, Action.yields_demand]
  refine ⟨fun block _ => ?_, fun _ => same⟩
  split
  · exact same
  · exact Action.yields_set.mpr (labels_updateBlock same fun _ => rfl)

theorem releaseOne_labels (id : Int) : (releaseOne id).Preserves fun p => p.labels = l := by
  intro p same
  simp only [releaseOne, Action.yields_bind, Action.yields_get, Action.yields_demand]
  refine ⟨fun block _ => ?_, fun _ => same⟩
  split
  · exact same
  · have kept : (p.updateBlock id fun b => { b with refs := b.refs - 1 }).labels = l :=
      labels_updateBlock same fun _ => rfl
    refine Action.yields_set.mpr ?_
    split
    · exact kept
    · exact kept

theorem revive_labels (id : Int) : (revive id).Preserves fun p => p.labels = l := by
  intro p same
  simp only [revive, Action.yields_bind, Action.yields_get, Action.yields_demand]
  refine ⟨fun place _ => ?_, fun _ => same⟩
  split
  · exact same
  · split
    · exact same
    · simp only [Action.yields_bind, Action.yields_set, Action.yields_pure]
      exact labels_updateBlock same fun _ => rfl

end Labels

theorem register_refused (nameless : p.block? id = none) : (register id hash tokens).after p = p := by
  have refused : (register id hash tokens).Yields p (fun _ q => q = p) fun _ q => q = p := by
    simp [register, nameless]
  exact refused.after

/-- The entry for the hash has the number, and the block has the label under all its numbers. -/
theorem register_after {block : Block} (named : p.block? id = some block) (hash : Int)
    (tokens : List Int) :
    ((register id hash tokens).after p).registry = p.registry.insert hash id ∧
      ∀ b, ((register id hash tokens).after p).label? b =
        if p.Alias b id then some (hash, tokens) else p.label? b := by
  have returns : (register id hash tokens).Returns p fun _ q =>
      q.registry = p.registry.insert hash id ∧
        ∀ b, q.label? b = if p.Alias b id then some (hash, tokens) else p.label? b := by
    simp only [register, Action.returns_bind, Action.returns_get, Action.returns_demand, named,
      Option.some.injEq, exists_eq_left', Action.returns_set, updateBlock_registry, true_and]
    intro b
    have changed := block?_updateBlock p id b fun block => { block with hash, tokens }
    refine (congrArg (Option.map _) changed).trans ?_
    split
    · rename_i same
      rw [same.block?, named]
      rfl
    · rfl
  obtain ⟨_, holds⟩ := returns.after
  exact holds

theorem register_current_iff (current : p.Current) (id hash : Int) (tokens : List Int) :
    ((register id hash tokens).after p).Current ↔ ∀ hash', p.Leads hash' id → hash' = hash := by
  cases named : p.block? id with
  | none =>
      rw [register_refused named]
      refine iff_of_true current ?_
      rintro hash' ⟨tokens', b, found, same⟩
      obtain ⟨-, -, holds⟩ := lookup?_eq_some_iff.mp found
      simp [same.block?, named] at holds
  | some block =>
      obtain ⟨registry, label⟩ := register_after named hash tokens
      constructor
      · rintro current' hash' ⟨tokens', b, found, same⟩
        by_contra other
        obtain ⟨entered, visible, -⟩ := lookup?_iff_label.mp found
        exact other (current'.hash_eq (by simpa [registry, other] using entered) visible
          ((label b).trans (if_pos same))).symm
      · rintro clean hash' tokens' b found
        obtain ⟨entered, visible, holds⟩ := lookup?_iff_label.mp found
        rw [registry, OrderedMap.get?_insert] at entered
        split at entered
        · rename_i same
          cases entered
          subst same
          have label' := (label id).trans (if_pos rfl)
          simpa [label'] using holds
        · rename_i other
          by_cases same : p.Alias b id
          · have known : p.lookup? hash' block.tokens = some b := lookup?_eq_some_iff.mpr
              ⟨entered, visible, by simp [same.block?, named]⟩
            exact absurd (clean hash' ⟨_, b, known, same⟩) other
          · rw [label b, if_neg same] at holds ⊢
            exact current hash' tokens' b (lookup?_iff_label.mpr ⟨entered, visible, holds⟩)

theorem Alias.eq_of_has {id' : Int} (same : p.Alias id id') (has : p.Has id) (has' : p.Has id') :
    id = id' := by
  have places : some id.toNat = some id'.toNat :=
    (resolve_of_has has).symm.trans (same.trans (resolve_of_has has'))
  have := has.1
  have := has'.1
  have := Option.some.inj places
  omega

theorem alias_congr (size : q.size = p.size) {id' : Int} : q.Alias id id' ↔ p.Alias id id' := by
  rw [Alias, Alias, size]

theorem Renewed.label? {ids : List Int} {own : Int} (renewed : p.Renewed q ids) (has : p.Has own)
    (same : p.Alias b own) : q.label? b = if own ∈ ids then some (noHash, []) else p.label? b := by
  have has' := (has_congr renewed.size).mpr has
  rw [label?_of_alias ((alias_congr renewed.size).mpr same), label?_of_alias same, Pool.label?,
    Pool.label?, block?_of_has has', block?_of_has has]
  split
  · rename_i member
    rw [renewed.reset own member]
    rfl
  · rename_i absent
    rw [renewed.kept own has.1 absent]

theorem Renewed.exists_own {ids : List Int} {label : Int × List Int} (renewed : p.Renewed q ids)
    (labelled : q.label? b = some label) : ∃ own, p.Has own ∧ p.Alias b own := by
  obtain ⟨block, named, -⟩ := Option.map_eq_some_iff.mp labelled
  obtain ⟨own, has, same, -⟩ := exists_has named
  exact ⟨own, (has_congr renewed.size).mp has, (alias_congr renewed.size).mp same⟩

theorem Renewed.current_iff {ids : List Int} (renewed : p.Renewed q ids) (current : p.Current) :
    q.Current ↔ ∀ id ∈ ids, ∀ hash, p.Leads hash id →
      hash = noHash ∨ p.registry.get? hash = some id := by
  constructor
  · rintro current' id member hash ⟨tokens, b, found, same⟩
    refine or_iff_not_imp_right.mpr fun other => ?_
    obtain ⟨entered, visible, -⟩ := lookup?_iff_label.mp found
    have absent : b ∉ ids := fun listed => by
      rw [same.eq_of_has (renewed.has b listed) (renewed.has id member)] at entered
      exact other entered
    have kept := (renewed.registry hash b).mpr ⟨entered, fun listed => absurd listed absent⟩
    have bare := (renewed.label? (renewed.has id member) same).trans (if_pos member)
    exact (current'.hash_eq kept visible bare).symm
  · intro clean hash tokens b found
    obtain ⟨entered, visible, holds⟩ := lookup?_iff_label.mp found
    obtain ⟨entered, spared⟩ := (renewed.registry hash b).mp entered
    obtain ⟨_, labelled, -⟩ := Option.map_eq_some_iff.mp holds
    obtain ⟨own, has, same⟩ := renewed.exists_own labelled
    have known : p.lookup? hash (p.entry own).tokens = some b := lookup?_eq_some_iff.mpr
      ⟨entered, visible, by rw [same.block?, block?_of_has has]; rfl⟩
    have label := renewed.label? has same
    by_cases member : own ∈ ids
    · rw [if_pos member] at label
      have bare : hash = noHash := by
        rcases clean own member hash ⟨_, b, known, same⟩ with bare | under
        · exact bare
        · obtain rfl : b = own := Option.some.inj (entered.symm.trans under)
          have held : p.label? b = some ((p.entry b).hash, (p.entry b).tokens) := by
            rw [Pool.label?, block?_of_has has]
            rfl
          exact (spared member).resolve_left (not_not_intro (current.hash_eq entered visible held))
      rw [label] at holds ⊢
      simpa [bare] using holds
    · rw [if_neg member] at label
      rw [label] at holds ⊢
      exact current hash tokens b (lookup?_iff_label.mpr ⟨entered, visible, holds⟩)

theorem allocate_current_iff (sound : p.Sound count) (current : p.Current) (n : Int) :
    ((allocate n).after p).Current ↔ ∀ id ∈ p.handed n, ∀ hash, p.Leads hash id →
      hash = noHash ∨ p.registry.get? hash = some id := by
  obtain ⟨-, held, balanced⟩ := sound
  have decides := allocate_decides balanced n
  unfold Action.after
  cases run : allocate n p with
  | ok ids q =>
      obtain ⟨⟨-, enough⟩, free, length, -, renewed⟩ := decides.of_ok run
      have all : p.handed n = ids := by
        rw [handed, if_pos enough, free, ← length, Int.toNat_natCast, List.take_left]
      rw [all]
      exact renewed.current_iff current
  | error fault q =>
      obtain ⟨rfl, refused⟩ := decides.of_error run
      have none : q.handed n = [] := by
        unfold handed
        rcases refused with ⟨negative, -⟩ | ⟨-, few, -⟩
        · simp [Int.toNat_of_nonpos (Int.le_of_lt negative)]
        · exact if_neg (Int.not_le.mpr few)
      rw [none]
      exact iff_of_true current fun id member => absurd member List.not_mem_nil

theorem Operation.current_iff (sound : p.Sound count) (current : p.Current) (operation : Operation) :
    (operation.run.after p).Current ↔ operation.Clean p := by
  have same : ∀ {act : Action Pool Unit}, (act.Preserves fun q => q.labels = p.labels) →
      ((act.after p).Current ↔ True) := fun preserves =>
    (current_congr (preserves.after rfl)).trans (iff_true_intro current)
  cases operation with
  | allocate n =>
      have after : (allocate n).run.after p = (Pool.allocate n).after p := Action.after_map
      rw [after]
      exact allocate_current_iff sound current n
  | release ids => exact same (.forM releaseOne_labels ids)
  | share ids => exact same (.forM shareOne_labels ids)
  | revive id => exact same (revive_labels id).map
  | register id hash tokens => exact register_current_iff current id hash tokens
  | lookup hash tokens => exact iff_true_intro current

theorem allocate_label (sound : p.Sound count) (n : Int)
    (labelled : ((allocate n).after p).label? b = some (hash, tokens)) :
    p.label? b = some (hash, tokens) ∨ hash = noHash := by
  obtain ⟨-, held, balanced⟩ := sound
  have decides := allocate_decides balanced n
  rw [Action.after] at labelled
  cases run : allocate n p with
  | ok ids q =>
      rw [run] at labelled
      obtain ⟨-, -, -, -, renewed⟩ := decides.of_ok run
      obtain ⟨own, has, same⟩ := renewed.exists_own labelled
      rw [renewed.label? has same] at labelled
      split at labelled
      · cases labelled
        exact Or.inr rfl
      · exact Or.inl labelled
  | error fault q =>
      rw [run] at labelled
      obtain ⟨rfl, -⟩ := decides.of_error run
      exact Or.inl labelled

theorem register_label {hash' : Int} {tokens' : List Int}
    (labelled : ((register id hash tokens).after p).label? b = some (hash', tokens')) :
    p.label? b = some (hash', tokens') ∨ (hash = hash' ∧ tokens = tokens') ∧ p.Alias id b := by
  cases named : p.block? id with
  | none =>
      rw [register_refused named] at labelled
      exact Or.inl labelled
  | some block =>
      rw [(register_after named hash tokens).2 b] at labelled
      split at labelled
      · rename_i same
        exact Or.inr ⟨Prod.mk.inj (Option.some.inj labelled), same.symm⟩
      · exact Or.inl labelled

/-- A block has its label from before, or it was handed out, or registered for just that. -/
theorem Operation.label_of_after (sound : p.Sound count) (operation : Operation)
    (labelled : (operation.run.after p).label? b = some (hash, tokens)) :
    p.label? b = some (hash, tokens) ∨ hash = noHash ∨
      ∃ id, operation = register id hash tokens ∧ p.Alias id b := by
  have same : ∀ {act : Action Pool Unit}, (act.Preserves fun q => q.labels = p.labels) →
      (act.after p).label? b = p.label? b := fun preserves => label?_congr (preserves.after rfl) b
  cases operation with
  | allocate n =>
      have after : (allocate n).run.after p = (Pool.allocate n).after p := Action.after_map
      exact (allocate_label sound n (after ▸ labelled)).imp_right Or.inl
  | release ids => exact Or.inl ((same (.forM releaseOne_labels ids)).symm.trans labelled)
  | share ids => exact Or.inl ((same (.forM shareOne_labels ids)).symm.trans labelled)
  | revive id => exact Or.inl ((same (revive_labels id).map).symm.trans labelled)
  | register id hash' tokens' =>
      rcases register_label labelled with before | ⟨⟨rfl, rfl⟩, same⟩
      · exact Or.inl before
      · exact Or.inr (Or.inr ⟨id, rfl, same⟩)
  | lookup hash' tokens' => exact Or.inl labelled

theorem registered_of_label (sound : p.Sound count) (real : hash ≠ noHash) (operations : List Operation)
    (labelled : (p.operated operations).label? b = some (hash, tokens)) :
    p.label? b = some (hash, tokens) ∨
      ∃ id, Operation.register id hash tokens ∈ operations ∧ p.Alias id b := by
  induction operations generalizing p with
  | nil => exact Or.inl labelled
  | cons operation rest ih =>
      have sound' := operation.preserves.after sound
      rcases ih sound' labelled with before | ⟨id, member, same⟩
      · rcases operation.label_of_after sound before with older | bare | ⟨id, rfl, same⟩
        · exact Or.inl older
        · exact absurd bare real
        · exact Or.inr ⟨id, List.mem_cons_self, same⟩
      · have size := sound'.size.trans sound.size.symm
        exact Or.inr ⟨id, List.mem_cons_of_mem _ member, (alias_congr size).mp same⟩

theorem always_current_iff (sound : p.Sound count) (current : p.Current) (operations : List Operation) :
    (∀ done, done <+: operations → (p.operated done).Current) ↔ p.Careful operations := by
  induction operations generalizing p with
  | nil =>
      refine iff_of_true (fun done early => ?_) trivial
      rw [List.prefix_nil.mp early]
      exact current
  | cons operation rest ih =>
      have sound' := operation.preserves.after sound
      rw [Careful, ← operation.current_iff sound current]
      constructor
      · intro always
        have current' := always [operation] (List.cons_prefix_cons.mpr ⟨rfl, List.nil_prefix⟩)
        exact ⟨current', (ih sound' current').mp fun done early =>
          always (operation :: done) (List.cons_prefix_cons.mpr ⟨rfl, early⟩)⟩
      · rintro ⟨current', careful⟩ done early
        cases done with
        | nil => exact current
        | cons first done =>
            obtain ⟨same, earlier⟩ := List.cons_prefix_cons.mp early
            subst same
            exact (ih sound' current').mpr careful done earlier

/-- Hits are never stale exactly if no block gets a new hash while a lookup under another one leads to
    it. Then a block that has been registered for something else or handed out again is not found
    for what it held before, until it is registered for just that once more. -/
theorem hits_current_iff {count blockSize : Int} {created : Pool}
    (creation : create count blockSize = .ok created) (operations : List Operation) :
    ((∀ done, done <+: operations → (created.operated done).Current) ↔ created.Careful operations) ∧
      (created.Careful operations → ∀ done later, operations = done ++ later →
        ∀ hash tokens b, hash ≠ noHash →
          (created.operated operations).lookup? hash tokens = some b →
          (created.operated done).label? b ≠ some (hash, tokens) →
          ∃ id, Operation.register id hash tokens ∈ later ∧ created.Alias id b) := by
  obtain ⟨start, -⟩ := sound_of_created creation
  have current : created.Current := by
    obtain ⟨-, rfl⟩ := eq_ofSize_of_created creation
    intro hash tokens b found
    cases (lookup?_iff_label.mp found).1
  have always := always_current_iff start current operations
  refine ⟨always, ?_⟩
  rintro careful done later rfl hash tokens b real found other
  have sound := operated_induction Operation.preserves start done
  have held := always.mpr careful _ List.prefix_rfl hash tokens b found
  rw [operated, List.foldl_append] at held
  rcases registered_of_label sound real later held with before | ⟨id, member, same⟩
  · exact absurd before other
  · exact ⟨id, member, (alias_congr (sound.size.trans start.size.symm)).mp same⟩

/-- A block is registered twice for the same, freed, revived, freed again, handed out and registered
    for something else, and another block takes its old place in the registry. -/
def recycled : List Operation :=
  [.allocate 2, .register 0 4 [9], .register 0 4 [9], .release [0], .revive 0, .release [0, 1],
    .allocate 2, .register 0 6 [9], .register 1 4 [9]]

theorem hits_current_iff_recycled :
    create 2 1 = .ok (ofSize 2 1) ∧ (ofSize 2 1).Careful recycled ∧
      (∀ done, done <+: recycled → ((ofSize 2 1).operated done).Current) ∧
      ((ofSize 2 1).operated recycled).lookup? 4 [9] = some 1 := by
  have creation : create 2 1 = .ok (ofSize 2 1) := rfl
  have careful : (ofSize 2 1).Careful recycled := by decide +kernel
  exact ⟨creation, careful, (hits_current_iff creation recycled).1.mpr careful, by decide +kernel⟩

/-- The same tokens are registered for a block after two different beginnings. -/
def relabelled : List Operation :=
  [.allocate 1, .register 0 1 [5], .register 0 2 [5]]

/-- The block has the second hash then and is still found under the first one. It is even found there
    after it was freed, handed out and registered for a third time. -/
theorem found_under_former_hash :
    ((ofSize 1 1).operated relabelled).lookup? 1 [5] = some 0 ∧
      ((ofSize 1 1).operated relabelled).label? 0 = some (2, [5]) ∧
      ¬ ((ofSize 1 1).operated relabelled).Current ∧
      ((ofSize 1 1).operated (relabelled ++ [.release [0], .allocate 1, .register 0 3 [5]])).lookup?
        1 [5] = some 0 := by
  have found : ((ofSize 1 1).operated relabelled).lookup? 1 [5] = some 0 := by decide +kernel
  have label : ((ofSize 1 1).operated relabelled).label? 0 = some (2, [5]) := by decide +kernel
  refine ⟨found, label, fun current => ?_, by decide +kernel⟩
  cases label.symm.trans (current 1 [5] 0 found)

end PagedServing.Pool
