import PagedServing.Batch.Assembly
import PagedServing.Cache.Release
import PagedServing.Cache.Swapping
import PagedServing.Proofs.Sequence
import PagedServing.Proofs.Tracks

/-! # Reports decide nothing

What is done to a cache does not depend on what was reported before. And whatever is done to it,
what was settled when a sequence was constructed stays as it is.
-/

namespace PagedServing

namespace Cache

open Logging (Journal Severity)

variable {c c' : Cache} {id : SeqId} {f : Sequence → Sequence} {kept : List Origin}

/-- What was settled when the sequences were constructed, in the order of their numbers. -/
def origins (c : Cache) : List Origin :=
  c.sequences.entries.map Sequence.origin

/-- Two caches in which the same was done, whatever was reported meanwhile. -/
structure Like (kept : List Origin) (c c' : Cache) : Prop where
  same : ∃ journal, c' = { c with journal }
  origins : c.origins = kept

theorem origins_update (same : (f (c.sequence id)).origin = (c.sequence id).origin) :
    (c.sequences.update id f).entries.map Sequence.origin = c.origins := by
  refine List.ext_getElem? fun n => ?_
  simp only [origins, Store.update, List.getElem?_map, List.getElem?_modify]
  by_cases own : id = n
  · subst own
    simp only [sequence, Store.get, List.getD_eq_getElem?_getD] at same
    cases found : c.sequences.entries[id]? with
    | none => simp
    | some q => simpa [found] using same
  · simp [own]

theorem Like.edited (like : Like kept c c') (same : (f (c.sequence id)).origin = (c.sequence id).origin) :
    Action.Alike (Like kept) (edit id f) (edit id f) c c' := by
  obtain ⟨⟨journal, rfl⟩, rfl⟩ := like
  exact Action.alike_modify.mpr ⟨⟨journal, rfl⟩, origins_update same⟩

theorem edit_tracks (same : ∀ q, (f q).origin = q.origin) : (edit id f).Tracks (Like kept) :=
  fun _ _ like => like.edited (same _)

theorem look_tracks : (look id).Tracks (Like kept) := by
  rintro c _ ⟨⟨journal, rfl⟩, same⟩
  exact ⟨rfl, ⟨journal, rfl⟩, same⟩

theorem report_tracks (severity : Severity) (source message : String) :
    (report severity source message).Tracks (Like kept) := by
  refine .modify ?_
  rintro c _ ⟨⟨journal, rfl⟩, same⟩
  exact ⟨⟨_, rfl⟩, same⟩

theorem onDevice_tracks {α : Type} (act : Action Pool α) : (onDevice act).Tracks (Like kept) := by
  refine .within ?_ ?_
  · rintro c _ ⟨⟨journal, rfl⟩, -⟩
    rfl
  · rintro c _ p ⟨⟨journal, rfl⟩, same⟩
    exact ⟨⟨journal, rfl⟩, same⟩

theorem onHost_tracks {α : Type} (act : Action Pool α) : (onHost act).Tracks (Like kept) := by
  rintro c _ ⟨⟨journal, rfl⟩, same⟩
  cases host : c.host with
  | none => simpa [Action.Alike, onHost, host] using ⟨⟨journal, host ▸ rfl⟩, same⟩
  | some p =>
      simp only [Action.Alike, onHost, host, Action.within]
      cases act p <;> exact ⟨rfl, ⟨journal, rfl⟩, same⟩

theorem get_bind_tracks {α : Type} {next : Cache → Action Cache α}
    (same : ∀ (c : Cache) (journal : Journal), next { c with journal } = next c)
    (rest : ∀ c, (next c).Tracks (Like kept)) : (get >>= next).Tracks (Like kept) := by
  refine .get_bind ?_ rest
  rintro c _ ⟨⟨journal, rfl⟩, -⟩
  exact same c journal

theorem origin_appended {q q' : Sequence} {token : Int} (appended : q.append token = .ok q') :
    q'.origin = q.origin := by
  unfold Sequence.append at appended
  split at appended
  · cases appended
  · split at appended
    · cases appended
    · cases appended
      rfl

theorem append_tracks (id : SeqId) (token : Int) : (append id token).Tracks (Like kept) := by
  rintro c _ ⟨⟨journal, rfl⟩, same⟩
  have like : Like kept c { c with journal } := ⟨⟨journal, rfl⟩, same⟩
  show Action.Alike _ (Action.ofExcept ((c.sequence id).append token) >>= fun s => edit id fun _ => s)
    (Action.ofExcept ((c.sequence id).append token) >>= fun s => edit id fun _ => s) _ _
  cases appended : (c.sequence id).append token with
  | error fault => exact ⟨rfl, like⟩
  | ok q => exact like.edited (origin_appended appended)

theorem coverBlock_tracks (id : SeqId) (chain : Chain) (index : Nat) :
    (coverBlock id chain index).Tracks (Like kept) := by
  refine .bind look_tracks fun q => .bind (.ofExcept _) fun tokens =>
    get_bind_tracks (fun _ _ => rfl) fun c => ?_
  -- Whether the block is hashed or not, it is looked up and added to the table in the same way.
  refine .ite (.bind (.ofExcept _) fun hash => ?_) (.bind (.pure _) fun hash => ?_)
  all_goals
    beta_reduce
    split
    · exact .ite (.bind (onDevice_tracks _) fun _ => .bind (edit_tracks fun _ => rfl) fun _ => .pure _)
        (.bind (.map (onDevice_tracks _)) fun _ => .bind (edit_tracks fun _ => rfl) fun _ => .pure _)
    · exact .bind (onDevice_tracks _) fun _ => .bind (edit_tracks fun _ => rfl) fun _ => .pure _

theorem allocate_tracks (id : SeqId) : (allocate id).Tracks (Like kept) := by
  have shared : (allocateShared id).Tracks (Like kept) :=
    .bind look_tracks fun q => .bind (.foldlM (coverBlock_tracks id) _ _) fun _ =>
      edit_tracks fun _ => rfl
  have fresh : (allocateFresh id).Tracks (Like kept) :=
    .bind look_tracks fun q => .bind (onDevice_tracks _) fun _ => edit_tracks fun _ => rfl
  exact get_bind_tracks (fun _ _ => rfl) fun c => .bind (.require _ _) fun _ =>
    .bind (.require _ _) fun _ => .ite shared fresh

theorem grow_tracks (id : SeqId) (tokens : Int) : (grow id tokens).Tracks (Like kept) := by
  have copy : ∀ source, (copyLast id source).Tracks (Like kept) := fun source =>
    .bind (onDevice_tracks _) fun _ => .bind (onDevice_tracks _) fun _ =>
      .bind (edit_tracks fun _ => rfl) fun _ => .pure _
  have supply : ∀ (missing : Int) (copied : Option (Int × Int)), Action.Tracks (Like kept) (do
      if 0 < missing then
        let blocks ← onDevice (Pool.allocate missing)
        edit id fun s => { s with table := s.table ++ blocks }
      return copied) := fun missing copied =>
    .ite (.bind (onDevice_tracks _) fun _ => .bind (edit_tracks fun _ => rfl) fun _ => .pure _) (.pure _)
  refine get_bind_tracks (fun _ _ => rfl) fun c => .bind (.require _ _) fun _ =>
    .bind (.require _ _) fun _ => ?_
  split
  · exact .ite (.bind (.map (copy _)) fun _ => supply _ _) (.bind (.pure _) fun _ => supply _ _)
  · exact .bind (.pure _) fun _ => supply _ _

theorem fork_tracks (parent child : SeqId) : (fork parent child).Tracks (Like kept) :=
  get_bind_tracks (fun _ _ => rfl) fun _ => .bind (.require _ _) fun _ => .bind (.require _ _) fun _ =>
    .bind (onDevice_tracks _) fun _ => edit_tracks fun _ => rfl

theorem publish_tracks (id : SeqId) : (publish id).Tracks (Like kept) := by
  have block : ∀ before index, (publishBlock id before index).Tracks (Like kept) := by
    intro before index
    refine .bind look_tracks fun q => .bind (.ofExcept _) fun tokens => .bind (.ofExcept _) fun hash =>
      get_bind_tracks (fun _ _ => rfl) fun c => .bind (.demand _ _) fun block =>
      .bind (.demand _ _) fun place => .bind (.demand _ _) fun held => ?_
    exact .ite (.bind (onDevice_tracks _) fun _ => .pure _) (.pure _)
  exact get_bind_tracks (fun _ _ => rfl) fun c => .ite (.map (.foldlM block _ _)) (.pure _)

theorem release_tracks (id : SeqId) : (release id).Tracks (Like kept) := by
  have emptied : (edit id fun s => { s with cached := 0, table := [] }).Tracks (Like kept) :=
    edit_tracks fun _ => rfl
  refine get_bind_tracks (fun _ _ => rfl) fun c => .ite (.bind (onHost_tracks _) fun _ =>
    .bind (.modify ?_) fun _ => emptied) (.bind (publish_tracks id) fun _ =>
    .bind look_tracks fun _ => .bind (onDevice_tracks _) fun _ => emptied)
  rintro c _ ⟨⟨journal, rfl⟩, same⟩
  exact ⟨⟨journal, rfl⟩, same⟩

theorem swapOut_tracks (id : SeqId) : (swapOut id).Tracks (Like kept) := by
  refine get_bind_tracks (fun _ _ => rfl) fun c => .bind (.require _ _) fun _ =>
    .bind (.require _ _) fun _ => .bind (onHost_tracks _) fun blocks =>
    .bind (onDevice_tracks _) fun _ => .bind (edit_tracks fun _ => rfl) fun _ =>
    .bind (.modify ?_) fun _ => .pure _
  rintro c _ ⟨⟨journal, rfl⟩, same⟩
  exact ⟨⟨journal, rfl⟩, same⟩

theorem swapIn_tracks (id : SeqId) : (swapIn id).Tracks (Like kept) := by
  refine get_bind_tracks (fun _ _ => rfl) fun c => .bind (.require _ _) fun _ =>
    .bind (onDevice_tracks _) fun blocks => .bind (onHost_tracks _) fun _ =>
    .bind (edit_tracks fun _ => rfl) fun _ => .bind (.modify ?_) fun _ => .pure _
  rintro c _ ⟨⟨journal, rfl⟩, same⟩
  exact ⟨⟨journal, rfl⟩, same⟩

end Cache

namespace Assembly

variable {kept : List Origin}

theorem takeIn_tracks (a : Assembly) (id : SeqId) : (a.takeIn id).Tracks (Cache.Like kept) :=
  .bind Cache.look_tracks fun _ => .bind (Cache.grow_tracks id _) fun _ =>
    .bind Cache.look_tracks fun _ => .bind (.ofExcept _) fun _ => .pure _

theorem consider_tracks (l : Limits) (a : Assembly) (id : SeqId) :
    (consider l a id).Tracks (Cache.Like kept) :=
  Cache.get_bind_tracks (fun _ _ => rfl) fun _ => .ite (.pure _) <| .ite (.pure _) <|
    .ite (.pure _) <| .ite (.pure _) <| .ite (.pure _) (takeIn_tracks a id)

theorem rank_reported (c : Cache) (journal : Logging.Journal) (id : SeqId) (candidates : List SeqId) :
    rank { c with journal } id candidates = rank c id candidates := by
  induction candidates with
  | nil => rfl
  | cons other rest ih =>
      simp only [rank, ih]
      rfl

theorem prioritised_reported (c : Cache) (journal : Logging.Journal) (candidates : List SeqId) :
    prioritised { c with journal } candidates = prioritised c candidates := by
  induction candidates with
  | nil => rfl
  | cons id rest ih =>
      simp only [prioritised, List.foldr_cons, rank_reported] at ih ⊢
      rw [ih]

theorem build_tracks (l : Limits) (candidates : List SeqId) :
    (build l candidates).Tracks (Cache.Like kept) := by
  refine Cache.get_bind_tracks (fun c journal => ?_) fun _ =>
    .bind (.foldlM (consider_tracks l) _ _) fun _ =>
    .ite (.bind (Cache.report_tracks _ _ _) fun _ => .pure _) (.pure _)
  simp only [prioritised_reported]

end Assembly

end PagedServing
