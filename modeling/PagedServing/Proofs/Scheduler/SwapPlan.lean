import PagedServing.Proofs.Scheduler.Runs

/-! # The copies to the host

A batch says for every device block of the preempted sequences which host block it is to be
copied to. It has room for one copy of each device block: if two of the sequences share a
block, one of its copies is missing, and otherwise none is.
-/

namespace PagedServing

namespace Scheduler

open Cache (Moves)

variable {c c' : Cache} {ids : List SeqId} {moves : Moves}

/-- A sequence had its blocks on the device before and has them on the host after. -/
structure Victim (c c' : Cache) (id : SeqId) : Prop where
  before : c.isSwapped id = false
  after : c'.isSwapped id = true

/-- The copies tell for every block of every victim where it went. -/
def Complete (c c' : Cache) (moves : Moves) : Prop :=
  ∀ id, Victim c c' id → (c'.sequence id).table.length = (c.sequence id).table.length ∧
    ∀ (i : Nat) g h, (c.sequence id).table[i]? = some g → (c'.sequence id).table[i]? = some h →
      moves.get? g = some h

/-- No device block of a victim is named a second time by the table of a victim. -/
def Unshared (c c' : Cache) : Prop :=
  ∀ id id' (i i' : Nat) g, Victim c c' id → Victim c c' id' →
    (c.sequence id).table[i]? = some g → (c.sequence id').table[i']? = some g → id' = id ∧ i' = i

/-- The copies are copies of blocks of victims, and every block of a victim has one. -/
structure Recorded (c c' : Cache) (moves : Moves) : Prop where
  length : ∀ id, Victim c c' id → (c'.sequence id).table.length = (c.sequence id).table.length
  origin : ∀ g h, moves.get? g = some h → ∃ id, Victim c c' id ∧ ∃ i : Nat,
    (c.sequence id).table[i]? = some g ∧ (c'.sequence id).table[i]? = some h
  found : ∀ id, Victim c c' id → ∀ g ∈ (c.sequence id).table, (moves.get? g).isSome

variable {c₁ c₂ : Cache} {id other : SeqId} {blocks : List Int}

theorem victim_iff_of_handled (handled : c₁.Handled c₂ id) (different : other ≠ id) :
    Victim c c₂ other ↔ Victim c c₁ other := by
  constructor
  · rintro ⟨before, after⟩
    exact ⟨before, (handled.swapped other different).symm.trans after⟩
  · rintro ⟨before, after⟩
    exact ⟨before, (handled.swapped other different).trans after⟩

theorem Recorded.origin_handled (recorded : Recorded c c₁ moves) (handled : c₁.Handled c₂ id)
    (side : c₁.isSwapped id = c.isSwapped id) {g h : Int} (found : moves.get? g = some h) :
    ∃ other, Victim c c₂ other ∧ ∃ i : Nat, (c.sequence other).table[i]? = some g ∧
      (c₂.sequence other).table[i]? = some h := by
  obtain ⟨other, victim, i, there⟩ := recorded.origin g h found
  have different : other ≠ id := by
    rintro rfl
    simpa [side, victim.before] using victim.after
  refine ⟨other, (victim_iff_of_handled handled different).mpr victim, i, ?_⟩
  rw [handled.others other different]
  exact there

theorem Recorded.freed (recorded : Recorded c c₁ moves) (handled : c₁.Handled c₂ id)
    (side : c₁.isSwapped id = c.isSwapped id) (device : c₂.isSwapped id = false) :
    Recorded c c₂ moves := by
  have different : ∀ {other}, Victim c c₂ other → other ≠ id := by
    rintro other victim rfl
    simpa [device] using victim.after
  constructor
  case length =>
    intro other victim
    rw [handled.others other (different victim)]
    exact recorded.length other ((victim_iff_of_handled handled (different victim)).mp victim)
  case origin => exact fun g h found => recorded.origin_handled handled side found
  case found =>
    intro other victim
    exact recorded.found other ((victim_iff_of_handled handled (different victim)).mp victim)

theorem Recorded.swapped (recorded : Recorded c c₁ moves) (handled : c₁.Handled c₂ id)
    (side : c₁.isSwapped id = c.isSwapped id) (victim : Victim c c₂ id)
    (table : (c₂.sequence id).table = blocks) (length : blocks.length = (c.sequence id).table.length) :
    Recorded c c₂
      (moves.insertAll (OrderedMap.ofList ((c.sequence id).table.zip blocks)).entries) := by
  constructor
  case length =>
    intro other victim'
    by_cases here : other = id
    · rw [here, table, length]
    · rw [handled.others other here]
      exact recorded.length other ((victim_iff_of_handled handled here).mp victim')
  case origin =>
    intro g h found
    rcases OrderedMap.get?_insertAll_ofList found with pair | before
    · obtain ⟨i, place⟩ := List.mem_iff_getElem?.mp pair
      obtain ⟨source, target⟩ := List.getElem?_zip_eq_some.mp place
      exact ⟨id, victim, i, source, table.symm ▸ target⟩
    · exact recorded.origin_handled handled side before
  case found =>
    intro other victim' g member
    refine OrderedMap.insertAll_ofList_isSome ?_
    by_cases here : other = id
    · left
      subst here
      obtain ⟨i, source⟩ := List.mem_iff_getElem?.mp member
      obtain ⟨inside, _⟩ := List.getElem?_eq_some_iff.mp source
      have target := List.getElem?_eq_getElem (l := blocks) (length ▸ inside)
      exact ⟨_, List.mem_of_getElem? (List.getElem?_zip_eq_some.mpr ⟨source, target⟩)⟩
    · exact Or.inr (recorded.found other ((victim_iff_of_handled handled here).mp victim') g member)

theorem Evicted.recorded (evicted : Evicted c ids c' moves) : Recorded c c' moves := by
  induction evicted with
  | nobody =>
      have nobody : ∀ id, ¬ Victim c c id := fun id victim => by
        simpa [victim.before] using victim.after
      refine ⟨fun id victim => absurd victim (nobody id), fun g h found => ?_,
        fun id victim => absurd victim (nobody id)⟩
      cases found
  | @next ids c₁ c₂ moves more id before new handled one ih =>
      obtain ⟨same, side⟩ := before.others new
      cases one with
      | freed _ device => exact ih.freed handled side device
      | @swapped cₐ c_b _ q blocks first _ out _ host table =>
          have device : c.isSwapped id = false := by
            rw [← side, ← Cache.isSwapped_congr first.swapped id]
            exact out.before
          have length : blocks.length = (c.sequence id).table.length := by
            rw [out.length, first.tables id, same]
          rw [same]
          exact ih.swapped handled side ⟨device, host⟩ table length

theorem Recorded.complete_iff (recorded : Recorded c c' moves) (sound : c'.Sound) :
    Complete c c' moves ↔ Unshared c c' := by
  constructor
  · intro complete id id' i i' g victim victim' place place'
    have target : ∀ {id} {i : Nat} {g}, Victim c c' id → (c.sequence id).table[i]? = some g →
        ∃ h, (c'.hostTable id)[i]? = some h ∧ moves.get? g = some h := by
      intro id i g victim place
      obtain ⟨inside, _⟩ := List.getElem?_eq_some_iff.mp place
      have there := List.getElem?_eq_getElem (l := (c'.sequence id).table)
        (recorded.length id victim ▸ inside)
      rw [Cache.hostTable_of_swapped victim.after]
      exact ⟨_, there, (complete id victim).2 i g _ place there⟩
    obtain ⟨h, there, found⟩ := target victim place
    obtain ⟨h', there', found'⟩ := target victim' place'
    obtain rfl : h = h' := Option.some.inj (found.symm.trans found')
    have knows : ∀ {id}, Victim c c' id → c'.Knows id := fun victim =>
      sound.filed.swapped_known _ (by simpa [Cache.isSwapped] using victim.after)
    exact Cache.place_unique (sound.balanced.host_single h) (knows victim) (knows victim') there there'
  · intro unshared id victim
    refine ⟨recorded.length id victim, fun i g h place there => ?_⟩
    obtain ⟨h', found⟩ := Option.isSome_iff_exists.mp
      (recorded.found id victim g (List.mem_of_getElem? place))
    obtain ⟨id', victim', i', place', there'⟩ := recorded.origin g h' found
    obtain ⟨rfl, rfl⟩ := unshared id id' i i' g victim victim' place place'
    rw [found, ← there', there]

/-- A batch is planned in every reached state, and the plan of its copies to the host is
    complete exactly if no two of the sequences swapped out for it share a block. -/
theorem swapOut_complete_iff {ω : Type} {config : Config} {device : Device ω} (valid : device.Valid)
    {d : Driven ω} (reachable : Reachable config device d) :
    ∃ b s mid, schedule d.scheduler = .ok b s ∧
      reserve {} d.scheduler.running.reverse { d.scheduler with preemptedLast := 0 } =
        .ok b.swapOut mid ∧
      (Complete d.scheduler.cache mid.cache b.swapOut ↔
        Unshared d.scheduler.cache mid.cache) := by
  obtain ⟨orderly, _⟩ := reachable.orderly valid
  obtain ⟨b, s, scheduled, _, _, _, mid, reserved⟩ := schedule_returns orderly
  have orderly₀ : { d.scheduler with preemptedLast := 0 }.Orderly [] [] :=
    orderly.unmoved rfl ⟨rfl, rfl, fun _ => rfl⟩
  have returns := reserve_returns d.scheduler.cache d.scheduler.running.reverse orderly₀
    (List.reverse_reverse _).symm .nobody (by simp)
  obtain ⟨orderly', _, victims, evicted, _⟩ := returns.of_run reserved
  exact ⟨b, s, mid, scheduled, reserved, evicted.recorded.complete_iff orderly'.sound⟩

/-- Of four requests the last begins with a block that the third has published. -/
def shared : Driven Unit :=
  (((((smallStart .swap true).request [5]).request [6]).request [1, 2]).iterate sevens 1).request
    [1] |>.iterate sevens 1

theorem shared_reachable : Reachable (smallConfig .swap true) sevens shared := by
  have three := (((smallStart_reachable .swap true).requestSeven [5] (by decide)).requestSeven
    [6] (by decide)).requestSeven [1, 2] (by decide)
  exact ((three.iterate 1).requestSeven [1] (by decide)).iterate 1

theorem swapOut_complete_iff_shared :
    ∃ b s mid, schedule shared.scheduler = .ok b s ∧
      reserve {} shared.scheduler.running.reverse { shared.scheduler with preemptedLast := 0 } =
        .ok b.swapOut mid ∧
      (Complete shared.scheduler.cache mid.cache b.swapOut ↔
        Unshared shared.scheduler.cache mid.cache) :=
  swapOut_complete_iff sevens_valid shared_reachable

/-- The third and the fourth request are swapped out at once. Their common block is copied for
    the third only. -/
theorem swapOut_incomplete :
    Reachable (smallConfig .swap true) sevens shared ∧
    ∃ b s mid, schedule shared.scheduler = .ok b s ∧
      reserve {} shared.scheduler.running.reverse { shared.scheduler with preemptedLast := 0 } =
        .ok b.swapOut mid ∧
      Victim shared.scheduler.cache mid.cache 3 ∧
      (shared.scheduler.sequence 3).table = [2, 10] ∧ (mid.sequence 3).table = [0, 1] ∧
      b.swapOut.get? 2 = some 2 ∧
      ¬ Complete shared.scheduler.cache mid.cache b.swapOut := by
  obtain ⟨orderly, _⟩ := shared_reachable.orderly sevens_valid
  obtain ⟨b, s, scheduled, _, _, _, mid, reserved⟩ := schedule_returns orderly
  have lost : (reserve {} shared.scheduler.running.reverse).Returns
      { shared.scheduler with preemptedLast := 0 } fun moves mid =>
        shared.scheduler.cache.isSwapped 3 = false ∧ mid.cache.isSwapped 3 = true ∧
        (shared.scheduler.sequence 3).table = [2, 10] ∧ (mid.sequence 3).table = [0, 1] ∧
        moves.get? 2 = some 2 := by
    decide +kernel
  obtain ⟨before, after, table, table', found⟩ := lost.of_run reserved
  have victim : Victim shared.scheduler.cache mid.cache 3 := ⟨before, after⟩
  refine ⟨shared_reachable, b, s, mid, scheduled, reserved, victim, table, table', found, ?_⟩
  intro complete
  have first : (shared.scheduler.cache.sequence 3).table[0]? = some 2 := congrArg (·[0]?) table
  have target : (mid.cache.sequence 3).table[0]? = some 0 := congrArg (·[0]?) table'
  have copied := (complete 3 victim).2 0 2 0 first target
  rw [found] at copied
  cases copied

end Scheduler

end PagedServing
