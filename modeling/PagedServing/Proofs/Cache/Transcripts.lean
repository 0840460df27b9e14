import PagedServing.Cache.Coverage
import PagedServing.Cache.Release
import PagedServing.Cache.Swapping
import PagedServing.Proofs.Ensures
import PagedServing.Proofs.Sequence

/-! # Transcripts

The transcript of a sequence is all that its caller can learn from it: who it is, what was
generated, how much of that was handed over and why it ended. Covering, moving and freeing
blocks leaves every transcript as it is.
-/

namespace PagedServing

/-- What the caller of a sequence can learn. -/
@[ext]
structure Transcript where
  origin : Origin
  completion : List Int
  /-- The number of completion tokens handed to the caller. -/
  emitted : Nat
  /-- Why the sequence ended. -/
  reason : Option FinishReason

/-- The transcript of a sequence. -/
def Sequence.transcript (q : Sequence) : Transcript :=
  ⟨q.origin, q.completion, q.emitted, q.finishReason⟩

/-- The tokens that the caller has not been handed. -/
def Transcript.fresh (t : Transcript) : List Int :=
  t.completion.drop t.emitted

/-- The transcript once its fresh tokens have been handed over. -/
def Transcript.delivered (t : Transcript) : Transcript :=
  { t with emitted := t.emitted + t.fresh.length }

theorem Sequence.fresh_transcript (q : Sequence) : q.transcript.fresh = q.fresh :=
  rfl

theorem Sequence.delivered_transcript (q : Sequence) :
    q.delivered.transcript = q.transcript.delivered :=
  rfl

theorem Store.get_update_unknown {s : Store} {id : SeqId} (f : Sequence → Sequence)
    (unknown : ¬ id < s.entries.length) (other : SeqId) : (s.update id f).get other = s.get other := by
  simp only [get, update]
  rw [List.modify_eq_self (Nat.le_of_not_lt unknown)]

namespace Cache

/-- The number of sequences, and their transcripts. -/
def transcripts (c : Cache) : Nat × (SeqId → Transcript) :=
  (c.sequences.nextId, fun id => (c.sequence id).transcript)

theorem edit_keeps {id : SeqId} {f : Sequence → Sequence}
    (same : ∀ q, (f q).transcript = q.transcript) : (edit id f).Keeps transcripts := by
  refine .modify fun c => Prod.ext (by simp [transcripts, Store.nextId, Store.update]) ?_
  funext other
  show ((c.sequences.update id f).get other).transcript = (c.sequences.get other).transcript
  by_cases known : id < c.sequences.entries.length
  · by_cases equal : other = id
    · rw [equal, Store.get_update_self f known, same]
    · rw [Store.get_update_of_ne f equal]
  · rw [Store.get_update_unknown f known]

@[simp]
theorem ensures_look {c : Cache} {id : SeqId} {post : Sequence → Cache → Prop} :
    (look id).Ensures c post ↔ post (c.sequence id) c := by
  simp [look]

theorem look_keeps (id : SeqId) : (look id).Keeps transcripts :=
  .bind .get fun _ => .pure _

theorem report_keeps (severity : Logging.Severity) (source message : String) :
    (report severity source message).Keeps transcripts :=
  .modify fun _ => rfl

theorem onDevice_keeps {α : Type} (act : Action Pool α) : (onDevice act).Keeps transcripts :=
  .elsewhere fun _ _ => rfl

theorem onHost_keeps {α : Type} (act : Action Pool α) : (onHost act).Keeps transcripts := by
  intro c
  cases host : c.host with
  | none => exact fun _ _ run => by simp [onHost, host] at run
  | some p =>
      have inner : (Action.within (fun _ => p) (fun c p => { c with host := some p }) act).Keeps
          transcripts := .elsewhere fun _ _ => rfl
      intro a c' run
      refine inner c a c' ?_
      simpa only [onHost, host] using run

theorem coverBlock_keeps (id : SeqId) (chain : Chain) (index : Nat) :
    (coverBlock id chain index).Keeps transcripts := by
  refine .bind (look_keeps id) fun s => .bind (.ofExcept _) fun tokens => .bind .get fun c =>
    .ite (.bind (.ofExcept _) fun hash => ?_) (.bind (.pure _) fun hash => ?_)
  all_goals
    dsimp only
    split
    · refine .ite (.bind (onDevice_keeps _) fun _ => ?_) (.bind (.map (onDevice_keeps _)) fun _ => ?_)
      all_goals exact .bind (edit_keeps fun _ => rfl) fun _ => .pure _
    · exact .bind (onDevice_keeps _) fun block => .bind (edit_keeps fun _ => rfl) fun _ => .pure _

theorem allocate_keeps (id : SeqId) : (allocate id).Keeps transcripts := by
  refine .bind .get fun c => .bind (.require _ _) fun _ => .bind (.require _ _) fun _ => .ite ?_ ?_
  · exact .bind (look_keeps id) fun s => .bind (.foldlM (coverBlock_keeps id) _ _) fun chain =>
      edit_keeps fun _ => rfl
  · exact .bind (look_keeps id) fun s => .bind (onDevice_keeps _) fun blocks => edit_keeps fun _ => rfl

theorem copyLast_keeps (id : SeqId) (source : Int) : (copyLast id source).Keeps transcripts :=
  .bind (onDevice_keeps _) fun _ => .bind (onDevice_keeps _) fun _ =>
    .bind (edit_keeps fun _ => rfl) fun _ => .pure _

theorem grow_keeps (id : SeqId) (tokens : Int) : (grow id tokens).Keeps transcripts := by
  refine .bind .get fun c => .bind (.require _ _) fun _ => .bind (.require _ _) fun _ => ?_
  have enlarge : ∀ copy : Option (Int × Int),
      (if 0 < c.blocksFor tokens - (c.sequence id).table.length then do
        let blocks ← onDevice (Pool.allocate (c.blocksFor tokens - (c.sequence id).table.length))
        edit id fun s => { s with table := s.table ++ blocks }
        return copy
      else return copy : Action Cache (Option (Int × Int))).Keeps transcripts := fun copy =>
    .ite (.bind (onDevice_keeps _) fun _ => .bind (edit_keeps fun _ => rfl) fun _ => .pure _) (.pure _)
  dsimp only
  split
  · exact .ite (.bind (.map (copyLast_keeps id _)) enlarge) (.bind (.pure _) enlarge)
  · exact .bind (.pure _) enlarge

theorem publishBlock_keeps (id : SeqId) (before : Int) (index : Nat) :
    (publishBlock id before index).Keeps transcripts := by
  refine .bind (look_keeps id) fun s => .bind (.ofExcept _) fun tokens => .bind (.ofExcept _) fun hash =>
    .bind .get fun c => .bind (.demand _ _) fun block => .bind (.demand _ _) fun place =>
    .bind (.demand _ _) fun held => .ite ?_ (.pure _)
  exact .bind (onDevice_keeps _) fun _ => .pure _

theorem publish_keeps (id : SeqId) : (publish id).Keeps transcripts :=
  .bind .get fun _ => .ite (.map (.foldlM (publishBlock_keeps id) _ _)) (.pure _)

theorem release_keeps (id : SeqId) : (release id).Keeps transcripts := by
  refine .bind .get fun c => .ite ?_ ?_
  · exact .bind (onHost_keeps _) fun _ => .bind (.modify fun _ => rfl) fun _ => edit_keeps fun _ => rfl
  · exact .bind (publish_keeps id) fun _ => .bind (look_keeps id) fun s =>
      .bind (onDevice_keeps _) fun _ => edit_keeps fun _ => rfl

theorem swapOut_keeps (id : SeqId) : (swapOut id).Keeps transcripts :=
  .bind .get fun _ => .bind (.require _ _) fun _ => .bind (.require _ _) fun _ =>
    .bind (onHost_keeps _) fun _ => .bind (onDevice_keeps _) fun _ =>
    .bind (edit_keeps fun _ => rfl) fun _ => .bind (.modify fun _ => rfl) fun _ => .pure _

theorem swapIn_keeps (id : SeqId) : (swapIn id).Keeps transcripts :=
  .bind .get fun _ => .bind (.require _ _) fun _ => .bind (onDevice_keeps _) fun _ =>
    .bind (onHost_keeps _) fun _ => .bind (edit_keeps fun _ => rfl) fun _ =>
    .bind (.modify fun _ => rfl) fun _ => .pure _

end Cache

end PagedServing
