import PagedServing.Proofs.Scheduler.Ledger

/-! # Turns

Whoever ends and whoever is committed has a turn, and the outputs of an operation are those of
its turns, in order. A sequence whose step succeeded gets one token, and ends at the first stop
condition that it meets.
-/

namespace PagedServing

/-- The stop condition that a history meets first after its last token, if it meets one. -/
def stopping (eos : Int) (maxLength : Nat) (sampling : Sampling) (prompt completion : List Int) :
    Option FinishReason :=
  let last := completion.getLast?
  if (last = some eos ∧ sampling.ignoreEos = false) ∨
      (∃ token ∈ sampling.stopTokens, last = some token) ∨
      ∃ stop ∈ sampling.stopSequences, stop <:+ completion then some .stop
  else if sampling.maxTokens ≤ completion.length ∨ maxLength ≤ prompt.length + completion.length then
    some .length
  else none

namespace Ledger

variable {l l' : Ledger} {id : SeqId} {turn : Turn}

/-- The turn in which the sample of a sequence is committed. -/
def answer (l : Ledger) (id : SeqId) (sample : Sample) : Turn :=
  if sample.success then
    { id
      tokens := [sample.token]
      ending := stopping l.config.eos l.config.maxLength (l.transcript id).origin.sampling
        (l.transcript id).origin.prompt ((l.transcript id).completion ++ [sample.token]) }
  else { id, ending := some .error, error := some "Engine step failed for this sequence" }

@[simp]
theorem answer_id (l : Ledger) (id : SeqId) (sample : Sample) : (l.answer id sample).id = id := by
  unfold answer
  split <;> rfl

theorem answer_after (different : id ≠ turn.id) (sample : Sample) :
    (l.after turn).answer id sample = l.answer id sample := by
  simp [answer, after, Function.update_of_ne different]

/-- The ledger with another transcript. -/
def rewrite (l : Ledger) (id : SeqId) (t : Transcript) : Ledger :=
  { l with transcript := Function.update l.transcript id t }

/-- The ledger with tokens that were generated and not handed over yet. -/
def grown (l : Ledger) (id : SeqId) (tokens : List Int) : Ledger :=
  l.rewrite id { l.transcript id with completion := (l.transcript id).completion ++ tokens }

theorem grown_output (ending : Option FinishReason) (error : Option String) (tokens : List Int) :
    (l.grown id tokens).output { id, ending, error } = l.output { id, tokens, ending, error } := by
  simp [output, drafted, grown, rewrite, name]

theorem grown_after (ending : Option FinishReason) (error : Option String) (tokens : List Int) :
    (l.grown id tokens).after { id, ending, error } = l.after { id, tokens, ending, error } := by
  simp [after, drafted, grown, rewrite, name]

end Ledger

/-- A sequence ends without a token, since something failed. -/
structure Turn.Failed (turn : Turn) : Prop where
  tokens : turn.tokens = []
  ending : turn.ending = some .error

/-- Sequences of a batch have their turns. Their samples are committed, or the batch has failed. -/
structure Ledger.Batched (l : Ledger) (ids : List SeqId) (turns : List Turn) : Prop where
  among : (turns.map (·.id)).Sublist ids
  each : ∀ turn ∈ turns, turn.Failed ∨ ∃ sample, turn = l.answer turn.id sample

theorem Ledger.Batched.nil (l : Ledger) (ids : List SeqId) : l.Batched ids [] :=
  ⟨List.nil_sublist _, fun _ none => absurd none List.not_mem_nil⟩

namespace Scheduler

variable {s : Scheduler} {id : SeqId}

theorem stopReason?_eq {q : Sequence} {token : Int} (last : q.completion.getLast? = some token) :
    s.stopReason? q token =
      stopping s.config.eos s.config.maxLength q.sampling q.prompt q.completion := by
  have stops : (q.sampling.stopSequences.any (·.isSuffixOf q.completion)) = true ↔
      ∃ stop ∈ q.sampling.stopSequences, stop <:+ q.completion := by
    simp
  unfold stopReason? stopping
  simp only [last, Option.some.injEq, stops, Sequence.length, Bool.not_eq_true', exists_eq_right']
  split
  · rename_i ends
    rw [if_pos (Or.inl ends)]
  · rename_i first
    split
    · rename_i ends
      rw [if_pos (Or.inr (Or.inl ends))]
    · rename_i second
      split
      · rename_i ends
        rw [if_pos (Or.inr (Or.inr ends))]
      · rename_i third
        rw [if_neg (not_or.mpr ⟨first, not_or.mpr ⟨second, third⟩⟩)]
        by_cases full : q.sampling.maxTokens ≤ q.completion.length
        · rw [if_pos full, if_pos (Or.inl full)]
        · simp only [full, if_false, false_or]
          rfl

theorem knows_of_count {s' : Scheduler} (same : s'.ledger.count = s.ledger.count)
    (knows : s.cache.Knows id) : s'.cache.Knows id :=
  Nat.lt_of_lt_of_eq knows same.symm

@[simp]
theorem ensures_look {post : Sequence → Scheduler → Prop} :
    (look id).Ensures s post ↔ post (s.cache.sequence id) s := by
  simp [look, onCache]

theorem edit_ensures {f : Sequence → Sequence} (knows : s.cache.Knows id) :
    (edit id f).Ensures s fun _ s' =>
      s'.ledger = s.ledger.rewrite id (f (s.cache.sequence id)).transcript ∧
      s'.cache.sequence id = f (s.cache.sequence id) := by
  simp only [edit, onCache, Cache.edit, Action.ensures_within, Action.ensures_modify]
  have self := Store.get_update_self (s := s.cache.sequences) f knows
  refine ⟨?_, self⟩
  have count : (s.cache.sequences.update id f).nextId = s.cache.sequences.nextId := by
    simp [Store.nextId, Store.update]
  have transcript : (fun other => ((s.cache.sequences.update id f).get other).transcript) =
      Function.update (fun other => (s.cache.sequence other).transcript) id
        (f (s.cache.sequence id)).transcript := by
    funext other
    by_cases same : other = id
    · subst same
      rw [Function.update_self, self]
      rfl
    · rw [Function.update_of_ne same, Store.get_update_of_ne f same]
      rfl
  exact Ledger.ext rfl count transcript rfl rfl

/-- Ending a sequence is a turn of it. -/
theorem finish_heard {reason : FinishReason} {error : Option String} (knows : s.cache.Knows id) :
    (finish id reason error).Ensures s fun output s' =>
      output = s.ledger.output { id, ending := some reason, error } ∧
      s'.ledger = s.ledger.after { id, ending := some reason, error } := by
  let turn : Turn := { id, ending := some reason, error }
  simp only [finish, Action.ensures_bind, ensures_look, Action.ensures_when]
  have baring : (if (!(s.cache.sequence id).table.isEmpty) = true then onCache (Cache.release id)
      else pure () : Action Scheduler Unit).Keeps ledger :=
    .ite (onCache_keeps (Cache.release_keeps id)) (.pure ())
  refine (baring s).weaken fun _ s₁ same => ?_
  have knows₁ : s₁.cache.Knows id := knows_of_count (congrArg Ledger.count same) knows
  refine (edit_ensures knows₁).weaken ?_
  rintro _ s₂ ⟨noted, -⟩
  have drafted : s₂.ledger = s.ledger.rewrite id (s.ledger.drafted turn) := by
    have before : (s₁.cache.sequence id).transcript = s.ledger.transcript id :=
      congrFun (congrArg Ledger.transcript same) id
    rw [noted, same, Ledger.drafted, ← before, List.append_nil]
    rfl
  have self : (s₂.cache.sequence id).transcript = s.ledger.drafted turn :=
    (congrFun (congrArg Ledger.transcript drafted) id).trans (Function.update_self ..)
  have name : (s₂.cache.sequence id).requestId = s.ledger.name id :=
    congrArg (fun t : Transcript => t.origin.requestId) self
  rw [Action.ensures_modify]
  refine (report_keeps _ _ _).weaken fun _ s₃ reported => ?_
  have self₃ : (s₃.cache.sequence id).transcript = s.ledger.drafted turn :=
    (congrFun (congrArg Ledger.transcript reported) id).trans self
  have erased : s₃.ledger = { s₂.ledger with
      requests := s₂.ledger.requests.erase (s₂.cache.sequence id).requestId } := reported
  rw [drafted, name] at erased
  have count : s₃.ledger.count = s.ledger.count := by rw [erased]; rfl
  refine (edit_ensures (knows_of_count count knows)).weaken ?_
  rintro _ s₄ ⟨delivered, -⟩
  rw [Action.ensures_pure, name, ← Sequence.fresh_transcript, self]
  refine ⟨rfl, ?_⟩
  rw [delivered, Sequence.delivered_transcript, self₃, erased]
  exact Ledger.ext rfl rfl (Function.update_idem ..) rfl rfl

theorem stopRunning_keeps (id : SeqId) : (stopRunning id).Keeps ledger :=
  .get_bind fun _ => Action.ensures_bind.mpr <| Action.ensures_ofExcept.mpr fun _ _ =>
    Action.ensures_set.mpr rfl

theorem stop_heard {reason : FinishReason} {error : Option String} (knows : s.cache.Knows id) :
    (stopRunning id >>= fun _ => finish id reason error).Ensures s fun output s' =>
      output = s.ledger.output { id, ending := some reason, error } ∧
      s'.ledger = s.ledger.after { id, ending := some reason, error } := by
  refine (stopRunning_keeps id).bind_ensures fun _ s₁ stopped => ?_
  rw [← stopped]
  exact finish_heard (knows_of_count (congrArg Ledger.count stopped) knows)

theorem deliver_heard (knows : s.cache.Knows id) :
    (edit id (·.delivered) >>= fun _ => pure
      { requestId := (s.cache.sequence id).requestId, tokens := (s.cache.sequence id).fresh } :
        Action Scheduler Output).Ensures s fun output s' =>
      output = s.ledger.output { id } ∧ s'.ledger = s.ledger.after { id } := by
  have drafted : s.ledger.drafted { id } = (s.cache.sequence id).transcript := by
    rw [Ledger.drafted, List.append_nil]
    rfl
  rw [Action.ensures_bind]
  refine (edit_ensures knows).weaken ?_
  rintro _ s' ⟨same, -⟩
  rw [Action.ensures_pure, same, Ledger.output, Ledger.after, drafted]
  exact ⟨rfl, rfl⟩

theorem append_ensures {token : Int} (knows : s.cache.Knows id) :
    (onCache (Cache.append id token)).Ensures s fun _ s' => s'.ledger = s.ledger.grown id [token] := by
  simp only [onCache, Cache.append, Action.ensures_within, Action.ensures_bind, Cache.ensures_look,
    Action.ensures_ofExcept]
  intro q appended
  have longer : q = { s.cache.sequence id with
      completion := (s.cache.sequence id).completion ++ [token] } := by
    unfold Sequence.append at appended
    split at appended
    · cases appended
    · split at appended
      · cases appended
      · exact (Except.ok.inj appended).symm
  have edited := edit_ensures (f := fun _ => q) knows
  simp only [edit, onCache, Action.ensures_within] at edited
  refine edited.weaken ?_
  rintro _ c ⟨same, -⟩
  rw [same, longer]
  rfl

theorem stopReason?_grown {s' : Scheduler} {sample : Sample} (success : sample.success = true)
    (grown : s'.ledger = s.ledger.grown id [sample.token]) :
    s'.stopReason? (s'.cache.sequence id) sample.token = (s.ledger.answer id sample).ending := by
  have self : (s'.cache.sequence id).transcript = { s.ledger.transcript id with
      completion := (s.ledger.transcript id).completion ++ [sample.token] } :=
    (congrFun (congrArg Ledger.transcript grown) id).trans (Function.update_self ..)
  have completion : (s'.cache.sequence id).completion =
      (s.ledger.transcript id).completion ++ [sample.token] := congrArg Transcript.completion self
  have origin : (s'.cache.sequence id).origin = (s.ledger.transcript id).origin :=
    congrArg Transcript.origin self
  have config : s'.config = s.ledger.config := congrArg Ledger.config grown
  rw [stopReason?_eq (by simp [completion]), completion, config, Ledger.answer, if_pos success, ← origin]
  rfl

/-- Committing a sample is a turn of its sequence. -/
theorem commitOne_heard {sample : Sample} (knows : s.cache.Knows id) :
    (commitOne id sample).Ensures s fun output s' =>
      output = s.ledger.output (s.ledger.answer id sample) ∧
      s'.ledger = s.ledger.after (s.ledger.answer id sample) := by
  simp only [commitOne, Action.ensures_bind, ensures_look, Action.ensures_require]
  intro _
  have noting : (edit id fun q => { q with computed := q.length }).Keeps ledger :=
    edit_keeps fun _ => rfl
  refine (noting s).weaken fun _ s₁ computed => ?_
  have knows₁ : s₁.cache.Knows id := knows_of_count (congrArg Ledger.count computed) knows
  rw [← computed]
  split
  · rename_i failed
    have failed : sample.success = false := by simpa using failed
    have answer : s₁.ledger.answer id sample =
        { id, ending := some .error, error := some "Engine step failed for this sequence" } := by
      simp [Ledger.answer, failed]
    rw [answer]
    exact stop_heard knows₁
  · rename_i succeeded
    have succeeded : sample.success = true := by simpa using succeeded
    simp only [Action.ensures_when, Action.ensures_bind]
    refine (append_ensures knows₁).weaken fun _ s₂ appended => ?_
    -- publishing is not heard, so the stop reason is that of the grown completion
    have publishing : (if (s.cache.sequence id).isPrefill = true then onCache (Cache.publish id)
        else pure () : Action Scheduler Unit).Keeps ledger :=
      .ite (onCache_keeps (Cache.publish_keeps id)) (.pure ())
    refine (publishing s₂).weaken fun _ s₃ same => ?_
    simp only [Action.ensures_get, ensures_look]
    rw [appended] at same
    have ending := stopReason?_grown succeeded same
    have answer : s₁.ledger.answer id sample =
        { id, tokens := [sample.token], ending := (s₁.ledger.answer id sample).ending } := by
      simp [Ledger.answer, succeeded]
    have count : s₃.ledger.count = s₁.ledger.count := by rw [same]; rfl
    have knows₃ : s₃.cache.Knows id := knows_of_count count knows₁
    rw [answer, ← Ledger.grown_output, ← Ledger.grown_after, ← same, ← ending]
    split
    · rename_i reason stops
      rw [stops]
      exact stop_heard knows₃
    · rename_i goesOn
      rw [goesOn]
      exact deliver_heard knows₃

theorem leaveQueue_keeps (id : SeqId) : (leaveQueue id).Keeps ledger := by
  refine .get_bind fun s => ?_
  dsimp only
  split
  · exact Action.ensures_bind.mpr <| Action.ensures_ofExcept.mpr fun _ _ => Action.ensures_set.mpr rfl
  · exact stopRunning_keeps id s
  · exact Action.ensures_bind.mpr <| Action.ensures_ofExcept.mpr fun _ _ => Action.ensures_set.mpr rfl
  · exact Action.ensures_throw
  · exact Action.ensures_throw

theorem finishEach_heard (reason : FinishReason) (ids : List SeqId) :
    ∀ {s : Scheduler}, (∀ id ∈ ids, s.cache.Knows id) →
      (finishEach reason ids).Ensures s fun outputs s' =>
        Heard s.ledger (ids.map fun id => { id, ending := some reason }) outputs s'.ledger := by
  induction ids with
  | nil =>
      intro s _
      exact Action.ensures_pure.mpr (.nil _)
  | cons id rest ih =>
      intro s knows
      rw [finishEach]
      refine (leaveQueue_keeps id).bind_ensures fun _ s₁ left => ?_
      have stillKnows : ∀ other ∈ id :: rest, s₁.cache.Knows other := fun other member =>
        knows_of_count (congrArg Ledger.count left) (knows other member)
      rw [Action.ensures_bind, ← left]
      refine (finish_heard (stillKnows id List.mem_cons_self)).weaken ?_
      rintro output s₂ ⟨rfl, ended⟩
      have count : s₂.ledger.count = s₁.ledger.count := by rw [ended]; rfl
      rw [Action.ensures_bind]
      refine (ih fun other member => knows_of_count count
        (stillKnows other (List.mem_cons_of_mem _ member))).weaken fun outputs s₃ heard => ?_
      rw [ended] at heard
      exact Action.ensures_pure.mpr (.cons heard)

theorem commitEach_heard (samples : List (SeqId × Sample)) :
    ∀ {s : Scheduler}, (∀ e ∈ samples, s.cache.Knows e.1) → (samples.map (·.1)).Nodup →
      (commitEach samples).Ensures s fun outputs s' =>
        Heard s.ledger (samples.map fun e => s.ledger.answer e.1 e.2) outputs s'.ledger := by
  induction samples with
  | nil =>
      intro s _ _
      exact Action.ensures_pure.mpr (.nil _)
  | cons e rest ih =>
      obtain ⟨id, sample⟩ := e
      intro s knows distinct
      obtain ⟨absent, distinct⟩ := List.nodup_cons.mp distinct
      rw [commitEach, Action.ensures_bind]
      refine (commitOne_heard (knows _ List.mem_cons_self)).weaken ?_
      rintro output s₁ ⟨rfl, committed⟩
      have count : s₁.ledger.count = s.ledger.count := by rw [committed]; rfl
      rw [Action.ensures_bind]
      refine (ih (fun other member => knows_of_count count
        (knows other (List.mem_cons_of_mem _ member))) distinct).weaken fun outputs s₂ heard => ?_
      have same : rest.map (fun e => s₁.ledger.answer e.1 e.2) =
          rest.map fun e => s.ledger.answer e.1 e.2 := by
        refine List.map_congr_left fun e member => ?_
        rw [committed]
        refine Ledger.answer_after (fun equal => absent ?_) e.2
        have equal : e.1 = id := equal.trans (Ledger.answer_id ..)
        exact List.mem_map.mpr ⟨e, member, equal⟩
      rw [same, committed] at heard
      exact Action.ensures_pure.mpr (.cons heard)

theorem failEach_heard (text : String) (ids : List SeqId) :
    ∀ {s : Scheduler}, (∀ id ∈ ids, s.cache.Knows id) →
      (failEach text ids).Ensures s fun outputs s' => ∃ turns, Heard s.ledger turns outputs s'.ledger ∧
        (turns.map (·.id)).Sublist ids ∧ ∀ turn ∈ turns, turn.Failed := by
  induction ids with
  | nil =>
      intro s _
      exact Action.ensures_pure.mpr ⟨[], .nil _, .slnil, by simp⟩
  | cons id rest ih =>
      intro s knows
      simp only [failEach, Action.ensures_bind, ensures_look]
      split
      · refine (stopRunning_keeps id).bind_ensures fun _ s₁ stopped => ?_
        have stillKnows : ∀ other ∈ id :: rest, s₁.cache.Knows other := fun other member =>
          knows_of_count (congrArg Ledger.count stopped) (knows other member)
        rw [Action.ensures_bind, ← stopped]
        refine (finish_heard (stillKnows id List.mem_cons_self)).weaken ?_
        rintro output s₂ ⟨rfl, ended⟩
        have count : s₂.ledger.count = s₁.ledger.count := by rw [ended]; rfl
        rw [Action.ensures_bind]
        refine (ih fun other member => knows_of_count count
          (stillKnows other (List.mem_cons_of_mem _ member))).weaken ?_
        rintro outputs s₃ ⟨turns, heard, among, failed⟩
        rw [ended] at heard
        exact Action.ensures_pure.mpr ⟨_, .cons heard, among.cons_cons id,
          List.forall_mem_cons.mpr ⟨⟨rfl, rfl⟩, failed⟩⟩
      · refine (ih fun other member => knows other (List.mem_cons_of_mem _ member)).weaken ?_
        rintro outputs s₁ ⟨turns, heard, among, failed⟩
        exact ⟨turns, heard, among.cons id, failed⟩

theorem dropSwappedOut_keeps (targets : List Int) (ids : List SeqId) :
    (dropSwappedOut targets ids).Keeps ledger := by
  induction ids with
  | nil => exact .pure ()
  | cons id rest ih =>
      refine .bind .get fun s => .ite ?_ ih
      exact .bind (onCache_keeps (Cache.release_keeps id)) fun _ => .bind (edit_keeps fun _ => rfl)
        fun _ => .bind (report_keeps _ _) fun _ => ih

theorem dropSwappedIn_keeps (targets : List Int) (ids : List SeqId) :
    (dropSwappedIn targets ids).Keeps ledger := by
  induction ids with
  | nil => exact .pure ()
  | cons id rest ih =>
      refine .bind (look_keeps id) fun q => .ite ?_ ih
      exact .bind (stopRunning_keeps id) fun _ => .bind (edit_keeps fun _ => rfl) fun _ =>
        .bind (onCache_keeps (Cache.release_keeps id)) fun _ => .bind (edit_keeps fun _ => rfl) fun _ =>
        .bind (.modify fun _ => rfl) fun _ => .bind (report_keeps _ _) fun _ => ih

theorem failBatch_heard {b : Batch} (knows : ∀ id ∈ b.sequences, s.cache.Knows id) (text : String) :
    (failBatch b text).Ensures s fun outputs s' =>
      ∃ turns, Heard s.ledger turns outputs s'.ledger ∧ s.ledger.Batched b.sequences turns := by
  rw [failBatch]
  refine (report_keeps _ _).bind_ensures fun _ s₁ reported => ?_
  rw [Action.ensures_bind, ← reported]
  refine (failEach_heard text b.sequences fun id member => knows_of_count
    (congrArg Ledger.count reported) (knows id member)).weaken ?_
  rintro outputs s₂ ⟨turns, heard, among, failed⟩
  have drop : (dropBlockOps b).Keeps ledger :=
    .bind .get fun _ => .bind (dropSwappedOut_keeps _ _) fun _ => .bind .get fun _ =>
      dropSwappedIn_keeps _ _
  refine drop.bind_ensures fun _ s₃ dropped => Action.ensures_pure.mpr
    ⟨turns, ?_, among, fun turn taken => Or.inl (failed turn taken)⟩
  rw [dropped]
  exact heard

/-- The outputs of a batch are those of turns of its sequences. If there is one sample for each,
    every sequence has a turn, in which its sample is committed. -/
theorem settle_heard {p : Prepared} {e : Execution} (knows : ∀ id ∈ p.batch.sequences, s.cache.Knows id)
    (distinct : p.batch.sequences.Nodup) :
    (settle p e).Ensures s fun outputs s' => ∃ turns, Heard s.ledger turns outputs s'.ledger ∧
      s.ledger.Batched p.batch.sequences turns ∧
      ∀ samples, e.result = .ok samples → samples.length = p.batch.size →
        turns = (p.batch.sequences.zip samples).map fun e => s.ledger.answer e.1 e.2 := by
  have keeping : (keepRecords e.records).Keeps ledger := onCache_keeps (.modify fun _ => rfl)
  rw [settle]
  refine keeping.bind_ensures fun _ s₁ kept => ?_
  have knows : ∀ id ∈ p.batch.sequences, s₁.cache.Knows id := fun id member =>
    knows_of_count (congrArg Ledger.count kept) (knows id member)
  rw [← kept]
  cases result : e.result with
  | error text =>
      refine (failBatch_heard knows text).weaken ?_
      rintro outputs s' ⟨turns, heard, batched⟩
      exact ⟨turns, heard, batched, fun _ answered => by cases answered⟩
  | ok samples =>
      simp only [commit]
      split
      · rename_i wrong
        refine (failBatch_heard knows _).weaken ?_
        rintro outputs s' ⟨turns, heard, batched⟩
        refine ⟨turns, heard, batched, fun _ answered count => absurd count ?_⟩
        cases answered
        exact wrong
      · rename_i right
        have right : samples.length = p.batch.size := not_not.mp right
        have names : (p.batch.sequences.zip samples).map (·.1) = p.batch.sequences :=
          List.map_fst_zip (Nat.le_of_eq right.symm)
        refine (commitEach_heard _ (fun e member => knows e.1 (List.of_mem_zip member).1)
          (names.symm ▸ distinct)).weaken fun outputs s' heard => ⟨_, heard, ⟨?_, ?_⟩, ?_⟩
        · have ids : (((p.batch.sequences.zip samples).map fun e => s₁.ledger.answer e.1 e.2).map (·.id)) =
              p.batch.sequences := by
            simpa only [List.map_map, Function.comp_def, Ledger.answer_id] using names
          rw [ids]
        · intro turn taken
          obtain ⟨e, _, rfl⟩ := List.mem_map.mp taken
          exact Or.inr ⟨e.2, by rw [Ledger.answer_id]⟩
        · intro _ answered _
          cases answered
          rfl

end Scheduler

end PagedServing
