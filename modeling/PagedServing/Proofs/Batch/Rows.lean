import PagedServing.Model.Runner
import PagedServing.Proofs.Batch.Flattening

/-! # The rows of a batch

A model gives a row of logits for every sequence of a batch, or one for every token. Either way each
sequence is sampled from one row, at its own temperature: from its own row, or from the row of its
last token. A row that is not finite fails the sequence that is sampled from it, and no other.
-/

namespace PagedServing

/-- A matrix of `count` rows, each with `width` numbers. -/
structure Logits.Matrix (logits : Logits) (count width : Nat) : Prop where
  shape : logits.shape = [count, width]
  counted : logits.rows.length = count
  widths : ∀ row ∈ logits.rows, row.length = width

namespace Logits.Matrix

variable {logits : Logits} {count width : Nat}

theorem isMatrix (matrix : logits.Matrix count width) : logits.isMatrix = true := by
  rw [Logits.isMatrix, matrix.shape]
  rfl

theorem rowCount (matrix : logits.Matrix count width) : logits.rowCount = count := by
  rw [Logits.rowCount, matrix.shape]
  rfl

end Logits.Matrix

namespace Sampler

/-- Whether all numbers of a row are finite. -/
def finite (row : List Float32) : Bool :=
  row.all (·.isFinite)

/-- The sampler takes finite rows of a width one by one, each with its own temperature. -/
def Rowwise (sampler : Logits → Temperatures → Except Refusal (List Nat)) (width : Nat)
    (pick : List Float32 → Float32 → Nat) : Prop :=
  ∀ (rows : List (List Float32)) (temperatures : List Float32),
    rows.length = temperatures.length → (∀ row ∈ rows, row.length = width ∧ finite row = true) →
      sampler (.ofRows rows) (.ofList temperatures) = .ok (List.zipWith pick rows temperatures)

theorem greatest?_eq_some {row : List Float32} (filled : row ≠ []) :
    greatest? row = some ((greatest? row).getD 0) := by
  cases row with
  | nil => exact absurd rfl filled
  | cons x rest =>
      simp only [greatest?]
      split <;> rfl

theorem sample_rowwise {width : Nat} (positive : 0 < width) :
    Rowwise sample width fun row temperature => (pick? row temperature).getD 0 := by
  intro rows temperatures counts finite
  have picked : ∀ x ∈ List.zipWith pick? rows temperatures, id x = pure (x.getD 0) := by
    intro x member
    obtain ⟨i, inside, rfl⟩ := List.getElem_of_mem member
    have width_i := (finite _ (List.getElem_mem (List.lt_length_left_of_zipWith inside))).1
    rw [List.getElem_zipWith]
    refine greatest?_eq_some fun none => ?_
    rw [scale, List.map_eq_nil_iff] at none
    rw [none] at width_i
    exact absurd width_i.symm (Nat.ne_of_gt positive)
  simp [sample, Logits.isMatrix, Logits.ofRows, Temperatures.ofList, Logits.rowCount, counts,
    mapM_eq_pure picked, List.map_zipWith]

end Sampler

open Sampler (finite)

/-- What is sampled of a row: the row itself if it is finite, zeros otherwise. -/
def masked (row : List Float32) : List Float32 :=
  if finite row then row else row.map fun _ => 0

/-- The sample of a row, which succeeds exactly if the row is finite. -/
def sampleOf (pick : List Float32 → Float32 → Nat) (row : List Float32) (temperature : Float32) :
    Sample :=
  ⟨pick (masked row) temperature, finite row⟩

theorem length_masked (row : List Float32) : (masked row).length = row.length := by
  unfold masked
  split <;> simp

theorem finite_masked (row : List Float32) : finite (masked row) = true := by
  have zero : (0 : Float32).isFinite = true := by decide
  unfold masked
  split
  · assumption
  · simp [finite, zero]

namespace Batch

/-- The place of the last token of the sequence at place `i` among all tokens. -/
def lastPlace (sequences : List Sequence) (i : Nat) : Nat :=
  bound sequences (i + 1) - 1

/-- There is one sample for every sequence, of the row at `place` and at the temperature of the
    sequence. -/
def Sampled (pick : List Float32 → Float32 → Nat) (sequences : List Sequence)
    (rows : List (List Float32)) (place : Nat → Nat) (samples : List Sample) : Prop :=
  samples.length = sequences.length ∧
    ∀ i (inside : i < sequences.length), ∃ row, rows[place i]? = some row ∧
      samples[i]? = some (sampleOf pick row sequences[i].sampling.temperature.toFloat32)

/-- Every sequence has a token to process. -/
def Contributing (sequences : List Sequence) : Prop :=
  ∀ s ∈ sequences, 0 ≤ s.computed ∧ s.computed < s.length

variable {sequences : List Sequence} {b : Batch}

theorem Lined.size_eq (lined : Lined b sequences) : b.size = sequences.length := by
  rw [Batch.size, lined.sequences, List.length_map]

theorem bound_gap (contributing : Contributing sequences) {i j : Nat} (before : i ≤ j)
    (within : j ≤ sequences.length) : bound sequences i + (j - i) ≤ bound sequences j := by
  induction j, before using Nat.le_induction with
  | base => omega
  | succ j before ih =>
      obtain ⟨started, unfinished⟩ := contributing _ (List.getElem_mem within)
      have width := length_pending sequences[j]
      have next := bound_succ within
      have := ih (Nat.le_of_lt within)
      omega

section

variable (lined : Lined b sequences) (contributing : Contributing sequences)
include lined contributing

theorem lastPlace_lt {i : Nat} (inside : i < sequences.length) :
    (lastPlace sequences i : Int) = (bound sequences (i + 1) : Int) - 1 ∧
      lastPlace sequences i < b.tokens.length := by
  have within : i + 1 ≤ sequences.length := inside
  have least := bound_gap contributing (Nat.zero_le (i + 1)) within
  have most : bound sequences (i + 1) ≤ bound sequences sequences.length := bound_le within
  rw [bound_length length_unprocessed, ← lined.tokens] at most
  unfold lastPlace
  omega

theorem lastPlace_eq (equal : sequences.length = b.tokens.length) {i : Nat}
    (inside : i < sequences.length) : lastPlace sequences i = i := by
  have within : i + 1 ≤ sequences.length := inside
  have least := bound_gap contributing (Nat.zero_le (i + 1)) within
  have rest := bound_gap contributing within (Nat.le_refl _)
  rw [bound_length length_unprocessed, ← lined.tokens, ← equal] at rest
  unfold lastPlace
  omega

theorem getElem?_lastPlace {i : Nat} (inside : i < sequences.length) :
    b.tokens[lastPlace sequences i]? = some sequences[i].lastToken :=
  have ⟨started, unfinished⟩ := contributing _ (List.getElem_mem inside)
  lined.getElem?_last inside started unfinished

end

end Batch

namespace Runner

open Batch

variable {r : Runner} {b : Batch} {sequences : List Sequence} {logits : Logits} {count width : Nat}
  {pick : List Float32 → Float32 → Nat}

theorem run_result (returned : (r.forward b).2 = .ok (some logits)) :
    (r.run b).result = r.samples b logits := by
  have forwarded : r.forward b = ((r.forward b).1, .ok (some logits)) := by rw [← returned]
  rw [run, forwarded]

/-- The rows that were chosen are sampled one by one. -/
theorem samples_rows {rows : List (List Float32)} (rowwise : Sampler.Rowwise r.sampler width pick)
    (matrix : logits.isMatrix = true) (chosen : chooseRows b logits = .ok rows)
    (counts : rows.length = b.singleTemperatures.length)
    (widths : ∀ row ∈ rows, row.length = width) :
    r.samples b logits = .ok (List.zipWith (sampleOf pick) rows b.singleTemperatures) := by
  have safe : List.zipWith (fun row ok => if ok = true then row else row.map fun _ => 0) rows
      (rows.map fun row => row.all (·.isFinite)) = rows.map masked := by
    rw [List.zipWith_map_right, List.zipWith_self]
    rfl
  have sampled := rowwise (rows.map masked) b.singleTemperatures
    (by rw [List.length_map, counts]) (by
      intro _ member
      obtain ⟨row, among, rfl⟩ := List.mem_map.mp member
      exact ⟨(length_masked row).trans (widths row among), finite_masked row⟩)
  have paired : List.zipWith (fun token ok => (⟨Int.ofNat token, ok⟩ : Sample))
      (List.zipWith pick (rows.map masked) b.singleTemperatures) (rows.map finite) =
        List.zipWith (sampleOf pick) rows b.singleTemperatures := by
    apply List.ext_getElem
    · simp [counts]
    · intro i _ _
      simp [sampleOf]
  simp only [samples, matrix, chosen, Bool.not_true, Bool.false_eq_true, if_false, bind, Except.bind,
    safe, sampled]
  exact congrArg Except.ok paired

theorem chooseRows_sequences (sized : logits.rowCount = b.size) :
    chooseRows b logits = .ok logits.rows := by
  have other : ¬(logits.rowCount = b.tokenCount ∧ b.tokenCount ≠ b.size) := fun both =>
    both.2 (both.1 ▸ sized)
  rw [chooseRows, if_neg other, if_neg (not_not_intro sized)]

theorem chooseRows_tokens (lined : Lined b sequences) (contributing : Contributing sequences)
    (sized : logits.rowCount = b.tokenCount) (more : b.tokenCount ≠ b.size)
    (counted : logits.rows.length = logits.rowCount) :
    chooseRows b logits = .ok
      ((List.range sequences.length).map fun i => logits.rows.getD (lastPlace sequences i) []) := by
  have indices : b.lastIndices =
      (List.range sequences.length).map fun i => (bound sequences (i + 1) : Int) - 1 := by
    rw [lastIndices, lined.bounds, List.range_succ_eq_map]
    simp
  rw [chooseRows, if_pos ⟨sized, more⟩, indices, List.mapM_map]
  refine mapM_eq_pure fun i member => ?_
  obtain ⟨place, inside⟩ := lastPlace_lt lined contributing (List.mem_range.mp member)
  have there : lastPlace sequences i < logits.rows.length := by
    rw [counted, sized]
    exact inside
  simp [← place, Offset.get?, Offset.resolve_ofNat there, there, pure, Except.pure]

theorem chooseRows_mismatch (few : logits.rowCount ≠ b.size) (other : logits.rowCount ≠ b.tokenCount) :
    chooseRows b logits = .error (.rowCount b.size logits.rowCount) := by
  rw [chooseRows, if_neg fun both => other both.1, if_pos few]

theorem samples_mismatch (matrix : logits.isMatrix = true) {failure : ModelFailure}
    (refused : chooseRows b logits = .error failure) : r.samples b logits = .error failure := by
  rw [samples, matrix, refused]
  rfl

section

variable (rowwise : Sampler.Rowwise r.sampler width pick) (lined : Lined b sequences)
  (returned : (r.forward b).2 = .ok (some logits)) (matrix : logits.Matrix count width)
include rowwise lined returned matrix

theorem run_chosen {rows : List (List Float32)} {place : Nat → Nat}
    (chosen : chooseRows b logits = .ok rows) (counts : rows.length = sequences.length)
    (places : ∀ i < sequences.length, rows[i]? = logits.rows[place i]?) :
    ∃ samples, (r.run b).result = .ok samples ∧
      Sampled pick sequences logits.rows place samples := by
  have temperatures : b.singleTemperatures =
      sequences.map fun s => s.sampling.temperature.toFloat32 := by
    rw [singleTemperatures, lined.temperatures, List.map_map]
    rfl
  have widths : ∀ row ∈ rows, row.length = width := by
    intro row member
    obtain ⟨i, inside, rfl⟩ := List.getElem_of_mem member
    have placed := places i (counts ▸ inside)
    rw [List.getElem?_eq_getElem inside] at placed
    exact matrix.widths _ (List.mem_of_getElem? placed.symm)
  have sampled := samples_rows rowwise matrix.isMatrix chosen
    (by rw [temperatures, List.length_map, counts]) widths
  refine ⟨_, (run_result returned).trans sampled, ?_, fun i inside => ?_⟩
  · rw [List.length_zipWith, temperatures, List.length_map, counts, Nat.min_self]
  · have there : i < rows.length := counts ▸ inside
    refine ⟨rows[i], ?_, ?_⟩
    · rw [← places i inside, List.getElem?_eq_getElem there]
    · simp [temperatures, there, inside]

theorem run_sequences (equal : count = sequences.length) :
    ∃ samples, (r.run b).result = .ok samples ∧
      Sampled pick sequences logits.rows (fun i => i) samples := by
  have chosen := chooseRows_sequences (matrix.rowCount.trans (equal.trans lined.size_eq.symm))
  exact run_chosen rowwise lined returned matrix chosen (matrix.counted.trans equal) fun _ _ => rfl

theorem run_tokens (contributing : Contributing sequences) (equal : count = b.tokens.length) :
    ∃ samples, (r.run b).result = .ok samples ∧
      Sampled pick sequences logits.rows (lastPlace sequences) samples := by
  by_cases both : sequences.length = b.tokens.length
  · -- The rows are taken as they are, and the last tokens are all tokens.
    obtain ⟨samples, result, length, each⟩ :=
      run_sequences rowwise lined returned matrix (equal.trans both.symm)
    refine ⟨samples, result, length, fun i inside => ?_⟩
    rw [lastPlace_eq lined contributing both inside]
    exact each i inside
  · have more : b.tokenCount ≠ b.size := lined.size_eq ▸ Ne.symm both
    have chosen := chooseRows_tokens lined contributing (matrix.rowCount.trans equal) more
      (matrix.counted.trans matrix.rowCount.symm)
    refine run_chosen rowwise lined returned matrix chosen (by simp) fun i inside => ?_
    obtain ⟨-, there⟩ := lastPlace_lt lined contributing inside
    rw [← equal, ← matrix.counted] at there
    simp [inside, there]

end

theorem run_mismatch (returned : (r.forward b).2 = .ok (some logits))
    (matrix : logits.Matrix count width) (few : count ≠ b.size) (other : count ≠ b.tokenCount) :
    (r.run b).result = .error (.rowCount b.size count) := by
  rw [← matrix.rowCount] at few other ⊢
  exact (run_result returned).trans (samples_mismatch matrix.isMatrix (chooseRows_mismatch few other))

/-- Whatever sequences a batch was filled with, a matrix of logits with a row for every sequence or
    for every token gives each sequence the sample of its row, or of the row of its last token, and
    the two agree where both are possible. Any other matrix fails the batch. -/
theorem run_samples {blockSize : Nat} {swapIn swapOut : Cache.Moves} {copies : List (Int × Int)}
    (rowwise : Sampler.Rowwise r.sampler width pick)
    (added : sequences.foldlM Batch.add { blockSize, swapIn, swapOut, copies } = .ok b)
    (contributing : Contributing sequences)
    (returned : (r.forward b).2 = .ok (some logits)) (matrix : logits.Matrix count width) :
    (∀ i (inside : i < sequences.length),
      b.tokens[lastPlace sequences i]? = some sequences[i].lastToken) ∧
    (count = sequences.length → ∃ samples, (r.run b).result = .ok samples ∧
      Sampled pick sequences logits.rows (fun i => i) samples) ∧
    (count = b.tokens.length → ∃ samples, (r.run b).result = .ok samples ∧
      Sampled pick sequences logits.rows (lastPlace sequences) samples) ∧
    (sequences.length = b.tokens.length → ∀ i < sequences.length, lastPlace sequences i = i) ∧
    (count ≠ sequences.length → count ≠ b.tokens.length →
      (r.run b).result = .error (.rowCount sequences.length count)) := by
  have lined : Lined b sequences := by
    simpa using (lined_nil blockSize swapIn swapOut copies).foldlM added fun s member =>
      ⟨(contributing s member).1, Int.le_of_lt (contributing s member).2⟩
  refine ⟨fun i inside => getElem?_lastPlace lined contributing inside,
    run_sequences rowwise lined returned matrix, run_tokens rowwise lined returned matrix contributing,
    fun equal i inside => lastPlace_eq lined contributing equal inside, ?_⟩
  rw [← lined.size_eq]
  exact run_mismatch returned matrix

/-- A row for each of the four tokens of `prefilling` and `decoding`, the first of which is not
    finite. -/
def tokenRows : Logits :=
  .ofRows [[0 / 0, 1], [1, 2], [3, 1], [2, 5]]

/-- The sequences are sampled from the third row and the last. -/
theorem run_samples_prefilling_decoding :
    ∃ b samples, [prefilling, decoding].foldlM Batch.add { blockSize := 2 } = .ok b ∧
      b.tokens = [5, 6, 7, 3] ∧ lastPlace [prefilling, decoding] 0 = 2 ∧
      lastPlace [prefilling, decoding] 1 = 3 ∧
      (Runner.run { model := fun _ _ => .ok tokenRows } b).result = .ok samples ∧
      Sampled (fun row temperature => (Sampler.pick? row temperature).getD 0)
        [prefilling, decoding] tokenRows.rows (lastPlace [prefilling, decoding]) samples := by
  have matrix : tokenRows.Matrix 4 2 := ⟨rfl, rfl, by simp [tokenRows, Logits.ofRows]⟩
  have contributing : Contributing [prefilling, decoding] := by
    simp only [Contributing, List.forall_mem_cons]
    decide
  have added : [prefilling, decoding].foldlM Batch.add { blockSize := 2 } = .ok
      { sequences := [0, 1], tokens := [5, 6, 7, 3], positions := [0, 1, 2, 2], slots := [8, 9, 2, 4]
        bounds := [0, 3, 4], contexts := [3, 3], tables := [[4, 1, 3], [0, 2]]
        temperatures := [1, 1], prefills := [true, false], blockSize := 2 } := rfl
  obtain ⟨samples, result, rows⟩ := (run_samples (r := { model := fun _ _ => .ok tokenRows })
    (Sampler.sample_rowwise Nat.two_pos) added contributing rfl matrix).2.2.1 rfl
  exact ⟨_, samples, added, rfl, rfl, rfl, result, rows⟩

end Runner

end PagedServing
