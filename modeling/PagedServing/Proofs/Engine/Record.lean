import PagedServing.Proofs.Engine.Service

/-! # What is told of one request

Clients know requests by their names, and names are used again. What is told of one request is what
the record says under its name, from its acceptance on until a request of the same name is
accepted.
-/

namespace PagedServing

/-- How far the record of one request has got. -/
inductive Watch where
  /-- It was not accepted yet. -/
  | before
  /-- It was the last to be accepted under its name. -/
  | during (notices : List Notice)
  /-- Another one was accepted under its name. -/
  | past (notices : List Notice)

namespace Watch

/-- What is known of a request. -/
def notices : Watch → List Notice
  | before => []
  | during notices | past notices => notices

/-- A notice follows. -/
def next (id : SeqId) (requestId : String) : Watch → Notice → Watch
  | before, .accepted other name =>
    if other = id ∧ name = requestId then during [] else before
  | before, _ => before
  | during notices, .accepted _ name =>
    if name = requestId then past notices else during notices
  | during notices, notice =>
    if notice.requestId = requestId then during (notices ++ [notice]) else during notices
  | past notices, _ => past notices

/-- Whether a request was the last to be accepted under its name. -/
def Current : Watch → Prop
  | during _ => True
  | before | past _ => False

end Watch

/-- Watch one request through a record. -/
def watch (id : SeqId) (requestId : String) (record : List Notice) : Watch :=
  record.foldl (Watch.next id requestId) .before

/-- What clients were told of one request. -/
def told (id : SeqId) (requestId : String) (record : List Notice) : List Notice :=
  (watch id requestId record).notices

section Watch

variable {id other : SeqId} {requestId : String} {record : List Notice} {notices : List Notice}
  {notice : Notice}

@[simp]
theorem watch_snoc (id : SeqId) (requestId : String) (record : List Notice) (notice : Notice) :
    watch id requestId (record ++ [notice]) = (watch id requestId record).next id requestId notice := by
  simp [watch]

/-- Whoever was not accepted is not watched. -/
theorem watch_of_new (new : .accepted id requestId ∉ record) : watch id requestId record = .before := by
  induction record using List.reverseRecOn with
  | nil => rfl
  | append_singleton record notice ih =>
      rw [List.mem_append, List.mem_singleton, not_or] at new
      rw [watch_snoc, ih new.1]
      cases notice with
      | accepted other name =>
          have different : ¬ (other = id ∧ name = requestId) := by
            rintro ⟨rfl, rfl⟩
            exact new.2 rfl
          simp [Watch.next, different]
      | tokens _ _ => rfl
      | ended _ _ => rfl
      | forgotten _ => rfl

theorem watch_append_of_ne {more : List Notice} (others : ∀ notice ∈ more, notice.requestId ≠ requestId) :
    watch id requestId (record ++ more) = watch id requestId record := by
  have next : ∀ (w : Watch) (notice : Notice), notice.requestId ≠ requestId →
      w.next id requestId notice = w := by
    intro w notice other
    cases w <;> cases notice <;> simp_all [Watch.next, Notice.requestId]
  induction more using List.reverseRecOn with
  | nil => rw [List.append_nil]
  | append_singleton more notice ih =>
      rw [← List.append_assoc, watch_snoc, next _ notice (others notice (by simp))]
      exact ih fun other among => others other (List.mem_append_left _ among)

theorem watch_append_of_past {more : List Notice} (past : ¬ (watch id requestId record).Current)
    (calls : ∀ notice ∈ more, ¬ notice.IsAcceptance) :
    watch id requestId (record ++ more) = watch id requestId record := by
  have next : ∀ (w : Watch) (notice : Notice), ¬ w.Current → ¬ notice.IsAcceptance →
      w.next id requestId notice = w := by
    intro w notice past call
    cases w <;> cases notice <;> simp_all [Watch.next, Watch.Current, Notice.IsAcceptance]
  induction more using List.reverseRecOn with
  | nil => rw [List.append_nil]
  | append_singleton more notice ih =>
      have same := ih fun other among => calls other (List.mem_append_left _ among)
      rw [← List.append_assoc, watch_snoc, same, next _ notice past (calls notice (by simp))]

theorem watch_snoc_of_during (during : watch id requestId record = .during notices)
    (own : notice.requestId = requestId) (call : ¬ notice.IsAcceptance) :
    watch id requestId (record ++ [notice]) = .during (notices ++ [notice]) := by
  rw [watch_snoc, during]
  cases notice <;> simp_all [Watch.next, Notice.requestId, Notice.IsAcceptance]

theorem mem_told_snoc {old : Notice} (among : old ∈ told id requestId (record ++ [notice])) :
    old ∈ told id requestId record ∨ old = notice := by
  rw [told, watch_snoc] at among
  rw [told]
  cases watched : watch id requestId record <;> rw [watched] at among <;> cases notice <;>
    simp only [Watch.next] at among <;> (try split at among) <;>
    simp_all [Watch.notices]

theorem mem_told_append {old : Notice} {more : List Notice}
    (among : old ∈ told id requestId (record ++ more)) :
    old ∈ told id requestId record ∨ old ∈ more := by
  induction more using List.reverseRecOn with
  | nil => exact Or.inl (by rwa [List.append_nil] at among)
  | append_singleton more notice ih =>
      rw [← List.append_assoc] at among
      rcases mem_told_snoc among with before | rfl
      · exact (ih before).imp_right (List.mem_append_left _)
      · exact Or.inr (List.mem_append_right _ List.mem_cons_self)

theorem Watch.current_next (w : Watch) : (w.next id requestId notice).Current ↔
    (w.Current ∧ ∀ other, notice ≠ .accepted other requestId) ∨
      w = .before ∧ notice = .accepted id requestId := by
  cases w <;> cases notice <;> simp only [Watch.next] <;> (try split) <;> simp_all [Watch.Current]

theorem watch_unique (first : (watch id requestId record).Current)
    (second : (watch other requestId record).Current) : id = other := by
  induction record using List.reverseRecOn with
  | nil => cases first
  | append_singleton record notice ih =>
      rw [watch_snoc, Watch.current_next] at first second
      rcases first with ⟨before, kept⟩ | ⟨-, accepted⟩ <;>
        rcases second with ⟨before', kept'⟩ | ⟨-, accepted'⟩
      · exact ih before before'
      · exact absurd accepted' (kept other)
      · exact absurd accepted (kept' id)
      · rw [accepted] at accepted'
        cases accepted'
        rfl

end Watch

end PagedServing
