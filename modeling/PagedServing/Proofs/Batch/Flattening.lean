import Mathlib
import PagedServing.Batch.Tensors
import PagedServing.Proofs.Batch.Layout

/-! # A batch and its sequences

A batch keeps seven lists: some with an entry for each token, some with an entry for each
sequence, and the bounds between the sequences. Together they say what every sequence has to
process and where it goes: the bounds cut the tokens, the positions and the slots into the pieces
of the sequences again, and the padded tables give the tables back.
-/

namespace PagedServing

theorem total_filter {α : Type} (p : α → Bool) (f : α → Int) (xs : List α) :
    total (xs.map fun x => if p x then f x else 0) = total ((xs.filter p).map f) := by
  induction xs with
  | nil => rfl
  | cons x rest ih => cases kept : p x <;> simp [kept, ih]

namespace Batch

/-- A batch can take in a sequence: its table names device blocks and covers its tokens, and some
    of them are still to be processed. -/
structure Addressable (blockSize : Nat) (s : Sequence) : Prop where
  natural : ∀ block ∈ s.table, 0 ≤ block
  covered : s.length ≤ s.table.length * blockSize
  started : 0 ≤ s.computed
  unfinished : s.computed < s.length

/-- The tokens that a sequence has to process. -/
def unprocessed (s : Sequence) : List Int :=
  s.tokens.drop s.computed.toNat

theorem length_pending (s : Sequence) : (pending s).length = s.length - s.computed.toNat := by
  simp [pending]

theorem length_unprocessed (s : Sequence) : (unprocessed s).length = (pending s).length := by
  simp [unprocessed, length_pending]

/-- Where the tokens of the sequence at place `i` start. -/
def bound (done : List Sequence) (i : Nat) : Nat :=
  ((done.map fun s => (pending s).length).take i).sum

theorem bound_append {done : List Sequence} {i : Nat} (within : i ≤ done.length) (s : Sequence) :
    bound (done ++ [s]) i = bound done i := by
  rw [bound, List.map_append, List.take_append_of_le_length (by simpa using within)]
  rfl

theorem bound_succ {done : List Sequence} {i : Nat} (inside : i < done.length) :
    bound done (i + 1) = bound done i + (pending done[i]).length := by
  simp [bound, List.take_add_one, inside]

theorem bound_length {α : Type} {f : Sequence → List α}
    (sized : ∀ s, (f s).length = (pending s).length) (done : List Sequence) :
    bound done done.length = (done.map f).flatten.length := by
  rw [bound, List.take_of_length_le (by simp), List.length_flatten, List.map_map]
  exact congrArg List.sum (List.map_congr_left fun s _ => (sized s).symm)

theorem bound_le {done : List Sequence} {i j : Nat} (before : i ≤ j) :
    bound done i ≤ bound done j :=
  ((List.take_sublist_take_left before).sum_le_sum fun _ _ => Nat.zero_le _)

theorem flatten_bound {α : Type} {f : Sequence → List α}
    (sized : ∀ s, (f s).length = (pending s).length) {done : List Sequence} {i : Nat}
    (inside : i < done.length) :
    ((done.map f).flatten.take (bound done (i + 1))).drop (bound done i) = f done[i] := by
  have lengths : (done.map f).map List.length = done.map fun s => (pending s).length := by
    rw [List.map_map]
    exact List.map_congr_left fun s _ => sized s
  have cut := List.drop_take_succ_flatten_eq_getElem (done.map f) i (by simpa using inside)
  rwa [lengths, List.getElem_map] at cut

/-- The batch lists the tokens and the temperatures of the sequences `done`, one after the
    other. -/
structure Lined (b : Batch) (done : List Sequence) : Prop where
  sequences : b.sequences = done.map (·.id)
  tokens : b.tokens = (done.map unprocessed).flatten
  bounds : b.bounds = (List.range (done.length + 1)).map fun i => (bound done i : Int)
  temperatures : b.temperatures = done.map (·.sampling.temperature)

/-- The batch lists all the work of the sequences `done`. -/
structure Flat (b : Batch) (done : List Sequence) : Prop extends Lined b done where
  positions : b.positions = (done.map fun s => (pending s).map Int.ofNat).flatten
  slots : b.slots = (done.map fun s => (pending s).map (slotIn b.blockSize s.table)).flatten
  spans : b.spans = done.map (·.uncomputed)
  contexts : b.contexts = done.map (·.length)
  tables : b.tables = done.map (·.table)
  prefills : b.prefills = done.map (·.isPrefill)

variable {b b' : Batch} {done : List Sequence} {s : Sequence}

theorem lined_nil (blockSize : Nat) (swapIn swapOut : Cache.Moves) (copies : List (Int × Int)) :
    Lined { blockSize, swapIn, swapOut, copies } [] := by
  constructor <;> simp [bound]

theorem flat_nil (blockSize : Nat) : Flat { blockSize } [] := by
  constructor <;> simp [spans, lined_nil]

theorem Lined.add (lined : Lined b done) (added : b.add s = .ok b') (started : 0 ≤ s.computed)
    (within : s.computed ≤ s.length) : Lined b' (done ++ [s]) := by
  obtain ⟨slots, rfl⟩ := of_add added
  have last : b.bounds.getLastD 0 = bound done done.length := by
    simp [lined.bounds, List.range_succ, List.getLastD_eq_getLast?]
  have grown : bound (done ++ [s]) (done.length + 1) =
      bound done done.length + (pending s).length := by
    rw [bound_succ (by simp), bound_append (Nat.le_refl _), List.getElem_concat_length rfl]
  have claimed : s.uncomputed = (pending s).length := by
    rw [length_pending, Sequence.uncomputed]
    omega
  constructor
  case sequences => simp [lined.sequences]
  case tokens => simp [lined.tokens, unprocessed, Offset.suffix, started]
  case temperatures => simp [lined.temperatures]
  case bounds =>
    show b.bounds ++ [b.bounds.getLastD 0 + s.uncomputed] = _
    rw [last, claimed, List.length_append, List.length_singleton, List.range_succ, List.map_append,
      List.map_singleton, grown, lined.bounds]
    congr 1
    refine List.map_congr_left fun i inside => ?_
    rw [bound_append (Nat.lt_succ_iff.mp (List.mem_range.mp inside))]

theorem Lined.foldlM {sequences : List Sequence} (lined : Lined b done)
    (added : sequences.foldlM Batch.add b = .ok b')
    (within : ∀ s ∈ sequences, 0 ≤ s.computed ∧ s.computed ≤ s.length) :
    Lined b' (done ++ sequences) := by
  induction sequences generalizing b done with
  | nil =>
      cases added
      simpa using lined
  | cons s rest ih =>
      rw [List.foldlM_cons] at added
      cases first : b.add s with
      | error fault =>
          rw [first] at added
          cases added
      | ok next =>
          rw [first] at added
          obtain ⟨started, short⟩ := within s List.mem_cons_self
          simpa using ih (lined.add first started short) added fun other member =>
            within other (List.mem_cons_of_mem s member)

/-- The last token of a sequence stands right before the next sequence. -/
theorem Lined.getElem?_last (lined : Lined b done) {i : Nat} (inside : i < done.length)
    (started : 0 ≤ done[i].computed) (unfinished : done[i].computed < done[i].length) :
    b.tokens[bound done (i + 1) - 1]? = some done[i].lastToken := by
  have width := length_pending done[i]
  have next := bound_succ inside
  have before : bound done (i + 1) ≤ b.tokens.length := by
    rw [lined.tokens, ← bound_length length_unprocessed]
    exact bound_le inside
  have last : (unprocessed done[i]).getLast? = some done[i].lastToken := by
    rw [unprocessed, List.getLast?_drop, if_neg (by rw [Sequence.length_tokens]; omega),
      List.getLast?_eq_some_getLast]
    rfl
  rwa [← flatten_bound length_unprocessed inside, ← lined.tokens, List.getLast?_drop,
    if_neg (by rw [List.length_take]; omega), List.getLast?_take, if_neg (by omega),
    List.getElem?_eq_getElem (by omega), Option.some_or,
    ← List.getElem?_eq_getElem (by omega)] at last

/-- A sequence that a batch can take in. -/
theorem Flat.add (flat : Flat b done) (addressable : Addressable b.blockSize s) :
    ∃ b', b.add s = .ok b' ∧ b'.blockSize = b.blockSize ∧ Flat b' (done ++ [s]) := by
  obtain ⟨-, covered, started, unfinished⟩ := addressable
  have added := add_covered started (Int.le_of_lt unfinished) covered
  refine ⟨_, added, rfl, ?_⟩
  constructor
  case toLined => exact flat.toLined.add added started (Int.le_of_lt unfinished)
  case positions => simp [flat.positions]
  case slots => simp [flat.slots]
  case contexts => simp [flat.contexts]
  case tables => simp [flat.tables]
  case prefills => simp [flat.prefills]
  case spans =>
    have some : b.bounds ≠ [] := by simp [flat.bounds]
    have before := flat.spans
    simp only [Batch.spans] at before ⊢
    rw [spans_append some, before, List.map_append]
    rfl

theorem Flat.foldlM {sequences : List Sequence} (flat : Flat b done)
    (addressable : ∀ s ∈ sequences, Addressable b.blockSize s) :
    ∃ b', sequences.foldlM Batch.add b = .ok b' ∧ b'.blockSize = b.blockSize ∧
      Flat b' (done ++ sequences) := by
  induction sequences generalizing b done with
  | nil => exact ⟨b, rfl, rfl, by simpa using flat⟩
  | cons s rest ih =>
      obtain ⟨b', added, size, flat'⟩ := flat.add (addressable s List.mem_cons_self)
      obtain ⟨b'', others, size', flat''⟩ := ih flat' fun other member =>
        size ▸ addressable other (List.mem_cons_of_mem _ member)
      refine ⟨b'', ?_, size'.trans size, by simpa using flat''⟩
      rw [List.foldlM_cons, added]
      exact others

/-- What the bounds of a batch give to the sequence at place `i`, of a list with an entry for
    each token. -/
def piece {α : Type} (b : Batch) (i : Nat) (xs : List α) : List α :=
  (xs.take (b.bounds.getD (i + 1) 0).toNat).drop (b.bounds.getD i 0).toNat

/-- The slot of a position names the block that covers it and the place in the block. -/
def Addresses (blockSize : Nat) (table : List Int) (position slot : Int) : Prop :=
  Offset.get? table (position / blockSize) = some (slot / blockSize) ∧
    slot % blockSize = position % blockSize

theorem addresses_slotIn {blockSize position : Nat} {table : List Int}
    (covered : position < table.length * blockSize) :
    Addresses blockSize table position (slotIn blockSize table position) := by
  have positive : 0 < blockSize := Nat.pos_of_lt_mul_left covered
  have inside : position / blockSize < table.length :=
    (Nat.div_lt_iff_lt_mul positive).mpr covered
  have offset : position % blockSize < blockSize := Nat.mod_lt _ positive
  constructor
  · rw [← Int.natCast_ediv, Offset.get?, Offset.resolve_ofNat inside, slotIn,
      Int.mul_comm, Int.mul_add_ediv_left _ _ (by omega),
      Int.ediv_eq_zero_of_lt (by omega) (by omega)]
    simp [inside]
  · rw [slotIn, ← Int.natCast_mod, Int.mul_comm, Int.mul_add_emod_self_left]
    exact Int.emod_eq_of_lt (by omega) (by omega)

namespace Flat

theorem getD_bounds (flat : Flat b done) {i : Nat} (within : i ≤ done.length) :
    b.bounds.getD i 0 = bound done i := by
  have inside : i < done.length + 1 := by omega
  simp [flat.bounds, inside]

theorem piece_flatten {α : Type} {f : Sequence → List α} (flat : Flat b done)
    (sized : ∀ s, (f s).length = (pending s).length) {i : Nat} (inside : i < done.length) :
    b.piece i (done.map f).flatten = f done[i] := by
  rw [piece, flat.getD_bounds inside, flat.getD_bounds (Nat.le_of_lt inside)]
  exact flatten_bound sized inside

theorem length_eq {α : Type} {f : Sequence → List α} (flat : Flat b done)
    (sized : ∀ s, (f s).length = (pending s).length) :
    b.bounds.getLast? = some ((done.map f).flatten.length : Int) := by
  rw [flat.bounds, List.range_succ, List.map_append, List.map_singleton, List.getLast?_concat,
    bound_length sized]

theorem tokens_piece (flat : Flat b done) {i : Nat} (inside : i < done.length) :
    b.piece i b.tokens = unprocessed done[i] := by
  rw [flat.tokens]
  exact flat.piece_flatten length_unprocessed inside

theorem positions_piece (flat : Flat b done) {i : Nat} (inside : i < done.length) :
    b.piece i b.positions = (pending done[i]).map Int.ofNat := by
  rw [flat.positions]
  exact flat.piece_flatten (f := fun s => (pending s).map Int.ofNat)
    (fun s => List.length_map _) inside

theorem slots_piece (flat : Flat b done) {i : Nat} (inside : i < done.length) :
    b.piece i b.slots = (pending done[i]).map (slotIn b.blockSize done[i].table) := by
  rw [flat.slots]
  exact flat.piece_flatten (f := fun s => (pending s).map (slotIn b.blockSize s.table))
    (fun s => List.length_map _) inside

theorem prefillTokens_eq (flat : Flat b done) :
    b.prefillTokens = total ((done.filter (·.isPrefill)).map (·.uncomputed)) := by
  rw [prefillTokens, flat.spans, flat.prefills, List.zipWith_map, List.zipWith_self]
  exact total_filter _ _ _

theorem tokenCount_eq (flat : Flat b done) (addressable : ∀ s ∈ done, Addressable b.blockSize s) :
    (b.tokenCount : Int) = total (done.map (·.uncomputed)) := by
  rw [tokenCount, flat.tokens]
  clear flat
  induction done with
  | nil => rfl
  | cons s rest ih =>
      obtain ⟨-, -, started, unfinished⟩ := addressable s List.mem_cons_self
      have others := ih fun other member => addressable other (List.mem_cons_of_mem s member)
      rw [List.map_cons, List.flatten_cons, List.length_append, List.map_cons, total_cons, ← others,
        length_unprocessed, length_pending, Sequence.uncomputed]
      omega

theorem decodeTokens_eq (flat : Flat b done)
    (addressable : ∀ s ∈ done, Addressable b.blockSize s) :
    b.decodeTokens = total ((done.filter (·.uncomputed = 1)).map (·.uncomputed)) := by
  have kinds : done.filter (·.uncomputed = 1) = done.filter fun s => !s.isPrefill := by
    refine List.filter_congr fun s member => ?_
    obtain ⟨-, -, started, unfinished⟩ := addressable s member
    rw [Sequence.isPrefill, ← decide_not, decide_eq_decide, Sequence.uncomputed]
    omega
  have whole := total_perm ((List.filter_append_perm (·.isPrefill) done).map (·.uncomputed))
  rw [List.map_append, total_append] at whole
  rw [decodeTokens, flat.tokenCount_eq addressable, flat.prefillTokens_eq, kinds]
  omega

theorem get?_last (flat : Flat b done) {i : Nat} (inside : i < done.length)
    (addressable : Addressable b.blockSize done[i]) :
    Offset.get? b.tokens ((bound done (i + 1) : Int) - 1) = some done[i].lastToken := by
  obtain ⟨-, -, started, unfinished⟩ := addressable
  have last := flat.toLined.getElem?_last inside started unfinished
  have known : bound done (i + 1) - 1 < b.tokens.length := (List.getElem?_eq_some_iff.mp last).1
  have width := length_pending done[i]
  have next := bound_succ inside
  have place : ((bound done (i + 1) : Int) - 1) = ((bound done (i + 1) - 1 : Nat) : Int) := by omega
  rw [place, Offset.get?, Offset.resolve_ofNat known]
  exact last

end Flat

/-- All numbers that a batch lists for the sequences fit the tensors that they go to. -/
structure Fitting (blockSize : Nat) (sequences : List Sequence) : Prop where
  tokens : ∀ s ∈ sequences, ∀ token ∈ unprocessed s, ElementType.int64.fits token
  slots : ∀ s ∈ sequences, ∀ position ∈ pending s,
    ElementType.int32.fits (slotIn blockSize s.table position)
  contexts : ∀ s ∈ sequences, ElementType.int32.fits s.length
  tables : ∀ s ∈ sequences, ∀ block ∈ s.table, ElementType.int32.fits block
  total : ElementType.int32.fits (total (sequences.map (·.uncomputed)))

theorem fits_iff {type : ElementType} {n : Int} :
    type.fits n ↔ -(type.bound : Int) ≤ n ∧ n < type.bound := by
  simp [ElementType.fits]

theorem fits_of_le {type : ElementType} {m n : Int} (fits : type.fits n) (natural : 0 ≤ m)
    (least : m ≤ n) : type.fits m := by
  rw [fits_iff] at fits ⊢
  omega

theorem fits_wide {type : ElementType} {n : Int} (fits : type.fits n) :
    ElementType.int64.fits n := by
  have narrow : type.bound ≤ ElementType.int64.bound := by cases type <;> decide
  rw [fits_iff] at fits ⊢
  omega

theorem misfit?_none (wide : ∀ n ∈ b.tokens ++ b.positions, ElementType.int64.fits n)
    (narrow : ∀ n ∈ b.slots ++ b.bounds ++ b.contexts.map Int.ofNat ++ b.tables.flatten,
      ElementType.int32.fits n) : b.misfit? = none := by
  rw [misfit?, List.findSome?_eq_none_iff]
  rintro ⟨type, n⟩ member
  have fits : type.fits n := by
    rcases List.mem_append.mp member with among | among
    all_goals obtain ⟨m, listed, same⟩ := List.mem_map.mp among; cases same
    · exact wide n listed
    · exact narrow n listed
  simp [fits, fits_wide fits]

theorem Flat.misfit?_none (flat : Flat b done)
    (addressable : ∀ s ∈ done, Addressable b.blockSize s) (fitting : Fitting b.blockSize done) :
    b.misfit? = none := by
  refine Batch.misfit?_none (fun n member => ?_) fun n member => ?_
  · rcases List.mem_append.mp member with among | among
    · rw [flat.tokens, ← List.flatMap_def] at among
      obtain ⟨s, old, inside⟩ := List.mem_flatMap.mp among
      exact fitting.tokens s old n inside
    · rw [flat.positions, ← List.flatMap_def] at among
      obtain ⟨s, old, inside⟩ := List.mem_flatMap.mp among
      obtain ⟨position, awaits, rfl⟩ := List.mem_map.mp inside
      have before := (mem_pending.mp awaits).2
      refine fits_wide (fits_of_le (fitting.contexts s old) (Int.natCast_nonneg _) ?_)
      exact Int.ofNat_le.mpr (Nat.le_of_lt before)
  · simp only [List.mem_append, or_assoc] at member
    rcases member with among | among | among | among
    · rw [flat.slots, ← List.flatMap_def] at among
      obtain ⟨s, old, inside⟩ := List.mem_flatMap.mp among
      obtain ⟨position, awaits, rfl⟩ := List.mem_map.mp inside
      exact fitting.slots s old position awaits
    · rw [flat.bounds] at among
      obtain ⟨i, within, rfl⟩ := List.mem_map.mp among
      refine fits_of_le fitting.total (Int.natCast_nonneg _) ?_
      rw [← flat.tokenCount_eq addressable, tokenCount, flat.tokens,
        ← bound_length length_unprocessed]
      exact Int.ofNat_le.mpr (bound_le (Nat.lt_succ_iff.mp (List.mem_range.mp within)))
    · rw [flat.contexts, List.map_map] at among
      obtain ⟨s, old, rfl⟩ := List.mem_map.mp among
      exact fitting.contexts s old
    · rw [flat.tables, ← List.flatMap_def] at among
      obtain ⟨s, old, inside⟩ := List.mem_flatMap.mp among
      exact fitting.tables s old n inside

theorem filter_padded {table : List Int} (natural : ∀ block ∈ table, 0 ≤ block) (width : Nat) :
    (padded width table).filter (· ≠ -1) = table := by
  have kept : table.filter (· ≠ -1) = table := by
    refine List.filter_eq_self.mpr fun block member => ?_
    have := natural block member
    simp only [ne_eq, decide_eq_true_eq]
    omega
  rw [padded, List.filter_append, kept]
  simp

theorem length_padded {table : List Int} {width : Nat} (within : table.length ≤ width) :
    (padded width table).length = width := by
  simp only [padded, List.length_append, List.length_replicate]
  omega

theorem tableWidth_eq (b : Batch) : b.tableWidth = ((b.tables.map (·.length)).max?).getD 0 := by
  rw [tableWidth]
  cases b.tables with
  | nil => rfl
  | cons first rest =>
      rw [List.map_cons, List.max?_cons', List.foldl_cons, Nat.zero_max]
      rfl

theorem length_le_tableWidth {table : List Int} (member : table ∈ b.tables) :
    table.length ≤ b.tableWidth := by
  have among : table.length ∈ b.tables.map (·.length) := List.mem_map_of_mem member
  rw [tableWidth_eq]
  exact List.le_max?_getD_of_mem among

/-- The bounds cut the lists of a batch into the work of the sequences that it was given. -/
structure Recounts (b : Batch) (added : List Sequence) : Prop where
  sequences : b.sequences = added.map (·.id)
  boundaries : b.bounds.length = added.length + 1
  natural : ∀ bound ∈ b.bounds, 0 ≤ bound
  last : b.bounds.getLast? = some (b.tokens.length : Int)
  length_positions : b.positions.length = b.tokens.length
  length_slots : b.slots.length = b.tokens.length
  tokens : ∀ i (inside : i < added.length),
    b.piece i b.tokens = added[i].tokens.drop added[i].computed.toNat
  positions : ∀ i (inside : i < added.length),
    b.piece i b.positions =
      (List.range' added[i].computed.toNat (added[i].length - added[i].computed.toNat)).map Int.ofNat
  slots : ∀ i (inside : i < added.length),
    List.Forall₂ (Addresses b.blockSize added[i].table) (b.piece i b.positions) (b.piece i b.slots)
  prefill : b.prefillTokens = total ((added.filter (1 < ·.uncomputed)).map (·.uncomputed))
  decode : b.decodeTokens = total ((added.filter (·.uncomputed = 1)).map (·.uncomputed))
  whole : b.prefillTokens + b.decodeTokens = b.tokenCount

/-- The tensors of a batch exist, and give back the tables and the last tokens. -/
structure Materializes (b : Batch) (added : List Sequence) : Prop where
  fits : b.misfit? = none
  widest : b.tableWidth = ((added.map (·.table.length)).max?).getD 0
  rows : ∃ rows, b.tensors.blockTables = .rows .int32 b.tableWidth rows ∧
    rows.map (·.filter (· ≠ -1)) = added.map (·.table) ∧ ∀ row ∈ rows, row.length = b.tableWidth
  last : ∃ ids indices, b.tensors.inputIds = .whole .int64 ids ∧
    b.tensors.lastIndices = .whole .int64 indices ∧
      indices.map (Offset.get? ids) = added.map fun s => some s.lastToken

theorem Flat.recounts (flat : Flat b done)
    (addressable : ∀ s ∈ done, Addressable b.blockSize s) : Recounts b done := by
  constructor
  case sequences => exact flat.sequences
  case boundaries => simp [flat.bounds]
  case natural =>
    intro bound member
    rw [flat.bounds] at member
    obtain ⟨i, -, rfl⟩ := List.mem_map.mp member
    exact Int.natCast_nonneg _
  case last =>
    rw [flat.tokens]
    exact flat.length_eq length_unprocessed
  case length_positions =>
    rw [flat.positions, flat.tokens, ← bound_length length_unprocessed]
    exact (bound_length (fun s => List.length_map _) done).symm
  case length_slots =>
    rw [flat.slots, flat.tokens, ← bound_length length_unprocessed]
    exact (bound_length (fun s => List.length_map _) done).symm
  case tokens => exact fun i inside => flat.tokens_piece inside
  case positions =>
    intro i inside
    rw [flat.positions_piece inside, pending, List.range'_eq_map_range]
  case slots =>
    intro i inside
    rw [flat.positions_piece inside, flat.slots_piece inside, List.forall₂_map_left_iff,
      List.forall₂_map_right_iff, List.forall₂_same]
    intro position awaits
    have covered := (addressable _ (List.getElem_mem inside)).covered
    exact addresses_slotIn ((mem_pending.mp awaits).2.trans_le covered)
  case prefill => exact flat.prefillTokens_eq
  case decode => exact flat.decodeTokens_eq addressable
  case whole =>
    rw [decodeTokens]
    omega

theorem Flat.materializes (flat : Flat b done)
    (addressable : ∀ s ∈ done, Addressable b.blockSize s) (fitting : Fitting b.blockSize done) :
    Materializes b done := by
  constructor
  case fits => exact flat.misfit?_none addressable fitting
  case widest => rw [tableWidth_eq, flat.tables, List.map_map, Function.comp_def]
  case rows =>
    refine ⟨_, rfl, ?_, fun row member => ?_⟩
    · rw [flat.tables, List.map_map, List.map_map]
      exact List.map_congr_left fun s old => filter_padded (addressable s old).natural _
    · obtain ⟨table, listed, rfl⟩ := List.mem_map.mp member
      exact length_padded (length_le_tableWidth listed)
  case last =>
    refine ⟨_, _, rfl, rfl, ?_⟩
    apply List.ext_getElem (by simp [lastIndices, flat.bounds])
    intro i listed inside
    have inside : i < done.length := by simpa using inside
    have last := flat.get?_last inside (addressable _ (List.getElem_mem inside))
    simpa [lastIndices, flat.bounds] using last

/-- Adding sequences to an empty batch lays out all their work, whatever the sequences are and
    however often they occur, and all of it can be read off the batch and its tensors again. -/
theorem foldlM_add_recounts {blockSize : Nat} {sequences : List Sequence}
    (addressable : ∀ s ∈ sequences, Addressable blockSize s)
    (fitting : Fitting blockSize sequences) :
    ∃ b, sequences.foldlM Batch.add { blockSize } = .ok b ∧ b.blockSize = blockSize ∧
      Recounts b sequences ∧ Materializes b sequences := by
  obtain ⟨b, added, size, flat⟩ := (flat_nil blockSize).foldlM addressable
  subst size
  exact ⟨b, added, rfl, flat.recounts addressable, flat.materializes addressable fitting⟩

/-- A prompt of three tokens, with a block to spare. -/
def prefilling : Sequence :=
  { id := 0, requestId := "a", status := .running, blockSize := 2, prompt := [5, 6, 7]
    table := [4, 1, 3], arrival := 0, sampling := .standard, blockSize_pos := Nat.two_pos
    prompt_ne_nil := List.cons_ne_nil _ _ }

/-- A sequence with one token to process. -/
def decoding : Sequence :=
  { id := 1, requestId := "b", status := .running, blockSize := 2, prompt := [8, 9]
    completion := [3], computed := 2, table := [0, 2], arrival := 1, sampling := .standard
    blockSize_pos := Nat.two_pos, prompt_ne_nil := List.cons_ne_nil _ _ }

theorem recounts_prefilling_decoding :
    (∀ s ∈ [prefilling, decoding], Addressable 2 s) ∧ Fitting 2 [prefilling, decoding] ∧
      ∃ b, [prefilling, decoding].foldlM Batch.add { blockSize := 2 } = .ok b ∧ b.blockSize = 2 ∧
        Recounts b [prefilling, decoding] ∧ Materializes b [prefilling, decoding] := by
  have addressable : ∀ s ∈ [prefilling, decoding], Addressable 2 s := by
    simp only [List.forall_mem_cons, List.not_mem_nil, false_imp_iff, implies_true, and_true]
    exact ⟨⟨by decide, by decide, by decide, by decide⟩, ⟨by decide, by decide, by decide, by decide⟩⟩
  have fitting : Fitting 2 [prefilling, decoding] :=
    ⟨by decide, by decide, by decide, by decide, by decide⟩
  exact ⟨addressable, fitting, foldlM_add_recounts addressable fitting⟩

end Batch

end PagedServing
