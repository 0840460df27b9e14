import PagedServing.Batch.Basic
import PagedServing.Proofs.Scheduler.Orderly

/-! # The layout of a batch

A batch lists, one sequence after the other, the positions that are to be processed and the
slots that they write to. A table that covers a sequence has a slot for each.
-/

namespace PagedServing

theorem mapM_eq_pure {m : Type → Type} [Monad m] [LawfulMonad m] {α β : Type} {f : α → m β}
    {g : α → β} {xs : List α} (each : ∀ x ∈ xs, f x = pure (g x)) :
    xs.mapM f = pure (xs.map g) := by
  induction xs with
  | nil => rfl
  | cons x rest ih =>
      rw [List.forall_mem_cons] at each
      simp [each.1, ih each.2]

theorem Offset.length_suffix {q : Sequence} (natural : 0 ≤ q.computed)
    (computed : q.computed ≤ q.length) :
    ((Offset.suffix q.tokens q.computed).length : Int) = q.uncomputed := by
  rw [Offset.suffix, if_pos natural, List.length_drop, Sequence.length_tokens, Sequence.uncomputed]
  omega

namespace Batch

/-- The slot of a position that a table covers. -/
def slotIn (blockSize : Nat) (table : List Int) (position : Nat) : Int :=
  table.getD (position / blockSize) 0 * blockSize + (position % blockSize : Nat)

theorem slot_covered {blockSize position : Nat} {table : List Int}
    (covered : position < table.length * blockSize) :
    slot blockSize table position = .ok (slotIn blockSize table position) := by
  have positive : 0 < blockSize := Nat.pos_of_lt_mul_left covered
  have inside : position / blockSize < table.length :=
    (Nat.div_lt_iff_lt_mul positive).mpr covered
  have resolved : Offset.resolve table.length ((position : Int) / blockSize) =
      some (position / blockSize) := by
    rw [← Int.natCast_ediv]
    exact Offset.resolve_ofNat inside
  simp [slot, Offset.get?, resolved, slotIn, inside]

/-- The slot of a position that the table of a sequence covers. -/
def slotOf (q : Sequence) (position : Nat) : Int :=
  q.table.getD (position / q.blockSize) 0 * q.blockSize + (position % q.blockSize : Nat)

theorem slot_eq {q : Sequence} {position : Nat}
    (covered : position < q.table.length * q.blockSize) :
    slot q.blockSize q.table position = .ok (slotOf q position) :=
  slot_covered covered

/-- The positions that a sequence has to process. -/
def pending (q : Sequence) : List Nat :=
  (List.range (q.length - q.computed.toNat)).map (q.computed.toNat + ·)

theorem mem_pending {q : Sequence} {position : Nat} :
    position ∈ pending q ↔ q.computed.toNat ≤ position ∧ position < q.length := by
  simp only [pending, List.mem_map, List.mem_range]
  constructor
  · rintro ⟨k, inside, rfl⟩
    omega
  · rintro ⟨late, inside⟩
    exact ⟨position - q.computed.toNat, by omega, by omega⟩

theorem span_eq {q : Sequence} (natural : 0 ≤ q.computed) (computed : q.computed ≤ q.length) :
    span q.computed q.length = (pending q).map Int.ofNat := by
  have count : ((q.length : Int) - q.computed).toNat = q.length - q.computed.toNat := by omega
  simp only [span, count, pending, List.map_map]
  refine List.map_congr_left fun k _ => ?_
  simp only [Function.comp_apply, Int.ofNat_eq_natCast]
  omega

theorem mapM_slot {blockSize : Nat} {table : List Int} (positions : List Nat)
    (covered : ∀ p ∈ positions, p < table.length * blockSize) :
    (positions.map Int.ofNat).mapM (slot blockSize table) =
      .ok (positions.map (slotIn blockSize table)) := by
  rw [List.mapM_map]
  exact mapM_eq_pure fun p member => slot_covered (covered p member)

theorem add_covered {b : Batch} {q : Sequence} (natural : 0 ≤ q.computed)
    (computed : q.computed ≤ q.length) (covered : q.length ≤ q.table.length * b.blockSize) :
    b.add q = .ok { b with
      sequences := b.sequences ++ [q.id]
      tokens := b.tokens ++ Offset.suffix q.tokens q.computed
      positions := b.positions ++ (pending q).map Int.ofNat
      slots := b.slots ++ (pending q).map (slotIn b.blockSize q.table)
      bounds := b.bounds ++ [b.bounds.getLastD 0 + q.uncomputed]
      contexts := b.contexts ++ [q.length]
      tables := b.tables ++ [q.table]
      temperatures := b.temperatures ++ [q.sampling.temperature]
      prefills := b.prefills ++ [q.isPrefill] } := by
  have slots := mapM_slot (pending q) fun p member =>
    Nat.lt_of_lt_of_le (mem_pending.mp member).2 covered
  simp only [add, span_eq natural computed, slots]
  rfl

theorem of_add {b b' : Batch} {q : Sequence} (added : b.add q = .ok b') :
    ∃ slots, b' = { b with
      sequences := b.sequences ++ [q.id]
      tokens := b.tokens ++ Offset.suffix q.tokens q.computed
      positions := b.positions ++ span q.computed q.length
      slots := b.slots ++ slots
      bounds := b.bounds ++ [b.bounds.getLastD 0 + q.uncomputed]
      contexts := b.contexts ++ [q.length]
      tables := b.tables ++ [q.table]
      temperatures := b.temperatures ++ [q.sampling.temperature]
      prefills := b.prefills ++ [q.isPrefill] } := by
  cases found : (span q.computed q.length).mapM (slot b.blockSize q.table) with
  | error fault =>
      simp only [add, found] at added
      cases added
  | ok slots =>
      simp only [add, found] at added
      exact ⟨slots, (Except.ok.inj added).symm⟩

/-- The batch lists what the sequences `ids` of a cache have to process and where it goes, one
    after the other, with their lengths and their tables. -/
structure Laid (b : Batch) (ids : List SeqId) (c : Cache) : Prop where
  sequences : b.sequences = ids
  tokens : b.tokens = ids.flatMap fun id =>
    Offset.suffix (c.sequence id).tokens (c.sequence id).computed
  positions : b.positions = ids.flatMap fun id => (pending (c.sequence id)).map Int.ofNat
  slots : b.slots = ids.flatMap fun id => (pending (c.sequence id)).map (slotOf (c.sequence id))
  bounds : b.bounds ≠ []
  spans : b.spans = ids.map fun id => (c.sequence id).uncomputed
  contexts : b.contexts = ids.map fun id => (c.sequence id).length
  tables : b.tables = ids.map fun id => (c.sequence id).table

theorem spans_append {bounds : List Int} (some : bounds ≠ []) (n : Int) :
    List.zipWith (fun start stop => stop - start) (bounds ++ [bounds.getLastD 0 + n])
        (bounds ++ [bounds.getLastD 0 + n]).tail =
      List.zipWith (fun start stop => stop - start) bounds bounds.tail ++ [n] := by
  induction bounds with
  | nil => exact absurd rfl some
  | cons first rest ih =>
      cases rest with
      | nil => simp
      | cons second rest =>
          have tail := ih (by simp)
          simp only [List.getLastD_cons, List.cons_append, List.tail_cons, List.zipWith_cons_cons]
            at tail ⊢
          rw [tail]

namespace Laid

variable {b : Batch} {ids : List SeqId} {c c' : Cache} {id : SeqId}

theorem empty (blockSize : Nat) (c : Cache) : Laid { blockSize } [] c :=
  ⟨rfl, rfl, rfl, rfl, by simp, by simp [Batch.spans], rfl, rfl⟩

theorem congr (laid : Laid b ids c) (same : ∀ id ∈ ids, c'.sequence id = c.sequence id) :
    Laid b ids c' := by
  refine ⟨laid.sequences, ?_, ?_, ?_, laid.bounds, ?_, ?_, ?_⟩
  · rw [laid.tokens]
    exact List.flatMap_congr fun other member => by rw [same other member]
  · rw [laid.positions]
    exact List.flatMap_congr fun other member => by rw [same other member]
  · rw [laid.slots]
    exact List.flatMap_congr fun other member => by rw [same other member]
  · rw [laid.spans]
    exact List.map_congr_left fun other member => by rw [same other member]
  · rw [laid.contexts]
    exact List.map_congr_left fun other member => by rw [same other member]
  · rw [laid.tables]
    exact List.map_congr_left fun other member => by rw [same other member]

theorem handled (laid : Laid b ids c) (handled : c.Handled c' id) (outside : id ∉ ids) :
    Laid b ids c' :=
  laid.congr fun other member => handled.others other fun same => outside (same ▸ member)

theorem moving (laid : Laid b ids c) (swapIn swapOut : Cache.Moves) :
    Laid { b with swapIn, swapOut } ids c :=
  ⟨laid.sequences, laid.tokens, laid.positions, laid.slots, laid.bounds, laid.spans, laid.contexts,
    laid.tables⟩

theorem copying (laid : Laid b ids c) (copies : List (Int × Int)) : Laid { b with copies } ids c :=
  ⟨laid.sequences, laid.tokens, laid.positions, laid.slots, laid.bounds, laid.spans, laid.contexts,
    laid.tables⟩

/-- A sequence whose table covers it is laid out behind the others. -/
theorem add (laid : Laid b ids c) (number : (c.sequence id).id = id)
    (size : b.blockSize = (c.sequence id).blockSize) (progressed : Cache.Progressed (c.sequence id))
    (covered : (c.sequence id).length ≤ (c.sequence id).table.length * (c.sequence id).blockSize) :
    ∃ b', b.add (c.sequence id) = .ok b' ∧ Laid b' (ids ++ [id]) c ∧ b'.blockSize = b.blockSize ∧
      b'.copies = b.copies := by
  have slots : slotIn b.blockSize (c.sequence id).table = slotOf (c.sequence id) := by
    rw [size]
    rfl
  rw [← size] at covered
  refine ⟨_, add_covered progressed.natural progressed.computed covered, ?_, rfl, rfl⟩
  constructor
  case sequences => rw [number, laid.sequences]
  case tokens => simp [laid.tokens]
  case positions => simp [laid.positions]
  case slots => simp [laid.slots, slots]
  case bounds => simp
  case spans =>
    have before := laid.spans
    simp only [Batch.spans] at before ⊢
    rw [spans_append laid.bounds, before]
    simp
  case contexts => simp [laid.contexts]
  case tables => simp [laid.tables]

end Laid

end Batch

end PagedServing
