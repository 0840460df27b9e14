import PagedServing.Proofs.OrderedMap
import PagedServing.Proofs.Scheduler.Turns

/-! # What is heard of one sequence

Requests go by different names, so each output is known to belong to one of them. Among the
outputs of some turns, the one with the name of a request is the one of its own turn. What is
heard of a sequence is its completion, piece by piece, and why it ended at last.
-/

namespace PagedServing

namespace Ledger

variable {l : Ledger} {id other : SeqId} {turn later : Turn}

/-- The requests are registered under their own names. -/
structure Named (l : Ledger) : Prop where
  keys_nodup : l.requests.keys.Nodup
  named : ∀ e ∈ l.requests.entries, e.1 = l.name e.2

theorem Named.unique (named : l.Named) (member : id ∈ l.requests.values)
    (member' : other ∈ l.requests.values) (same : l.name id = l.name other) : id = other := by
  obtain ⟨k, entry⟩ := OrderedMap.mem_values.mp member
  obtain ⟨k', entry'⟩ := OrderedMap.mem_values.mp member'
  have first : k = l.name id := named.named _ entry
  have second : k' = l.name other := named.named _ entry'
  obtain rfl : k = k' := first.trans (same.trans second.symm)
  exact OrderedMap.value_unique named.keys_nodup entry entry'

theorem after_of_ne (different : id ≠ turn.id) : (l.after turn).transcript id = l.transcript id :=
  Function.update_of_ne different ..

theorem after_self (l : Ledger) (turn : Turn) :
    (l.after turn).transcript turn.id = (l.drafted turn).delivered :=
  Function.update_self ..

theorem origin_after (l : Ledger) (turn : Turn) (id : SeqId) :
    ((l.after turn).transcript id).origin = (l.transcript id).origin := by
  by_cases same : id = turn.id
  · rw [same, after_self]
    rfl
  · rw [after_of_ne same]

@[simp]
theorem name_after (l : Ledger) (turn : Turn) (id : SeqId) : (l.after turn).name id = l.name id :=
  congrArg Origin.requestId (origin_after l turn id)

theorem Named.mem_after (named : l.Named) (member : turn.id ∈ l.requests.values) :
    id ∈ (l.after turn).requests.values ↔
      id ∈ l.requests.values ∧ (id = turn.id → turn.ending = none) := by
  cases ending : turn.ending with
  | none => simp [after, ending]
  | some reason =>
      have requests : (l.after turn).requests = l.requests.erase (l.name turn.id) := by
        simp [after, ending]
      have erased : id ∈ (l.requests.erase (l.name turn.id)).values ↔
          id ∈ l.requests.values ∧ id ≠ turn.id := by
        simp only [OrderedMap.mem_values, OrderedMap.mem_erase_entries]
        constructor
        · rintro ⟨k, entry, different⟩
          refine ⟨⟨k, entry⟩, fun same => different ?_⟩
          exact (named.named _ entry).trans (congrArg l.name same)
        · rintro ⟨⟨k, entry⟩, different⟩
          refine ⟨k, entry, fun same => different ?_⟩
          have own := named.named _ entry
          exact named.unique (OrderedMap.mem_values.mpr ⟨k, entry⟩) member (own.symm.trans same)
      rw [requests, erased]
      simp

theorem Named.after (named : l.Named) (turn : Turn) : (l.after turn).Named := by
  cases ending : turn.ending with
  | none =>
      have requests : (l.after turn).requests = l.requests := by simp [Ledger.after, ending]
      refine ⟨requests ▸ named.keys_nodup, fun e entry => ?_⟩
      rw [name_after]
      exact named.named e (requests ▸ entry)
  | some reason =>
      have requests : (l.after turn).requests = l.requests.erase (l.name turn.id) := by
        simp [Ledger.after, ending]
      refine ⟨requests ▸ OrderedMap.keys_erase_nodup named.keys_nodup _, fun e entry => ?_⟩
      rw [requests] at entry
      rw [name_after]
      exact named.named e (OrderedMap.mem_erase_entries.mp entry).1

theorem output_after (different : later.id ≠ turn.id) : (l.after turn).output later = l.output later := by
  simp only [output, drafted, name_after, after_of_ne different]

end Ledger

variable {l l' : Ledger} {turns : List Turn} {outputs : List Output} {id : SeqId} {turn : Turn}

theorem Ledger.Named.silent (named : l.Named)
    (names : outputs.map (·.requestId) = turns.map fun turn => l.name turn.id)
    (members : ∀ turn ∈ turns, turn.id ∈ l.requests.values) (member : id ∈ l.requests.values)
    (outside : id ∉ turns.map (·.id)) : outputs.filter (·.requestId = l.name id) = [] := by
  rw [List.filter_eq_nil_iff]
  intro o among own
  have own : o.requestId = l.name id := of_decide_eq_true own
  have spoken : o.requestId ∈ turns.map fun turn => l.name turn.id :=
    names ▸ List.mem_map_of_mem among
  obtain ⟨turn, taken, name⟩ := List.mem_map.mp spoken
  have same := named.unique (members turn taken) member (name.trans own)
  exact outside (List.mem_map.mpr ⟨turn, taken, same⟩)

namespace Heard

/-- Outputs carry the names of the sequences that had a turn. -/
theorem names (heard : Heard l turns outputs l') :
    outputs.map (·.requestId) = turns.map fun turn => l.name turn.id := by
  induction heard with
  | nil l => rfl
  | cons rest ih =>
      simp only [Ledger.name_after] at ih
      rw [List.map_cons, List.map_cons, ih]
      rfl

theorem origin (heard : Heard l turns outputs l') (id : SeqId) :
    (l'.transcript id).origin = (l.transcript id).origin := by
  induction heard with
  | nil l => rfl
  | cons rest ih => exact ih.trans (Ledger.origin_after ..)

theorem count (heard : Heard l turns outputs l') : l'.count = l.count := by
  induction heard with
  | nil l => rfl
  | cons rest ih => exact ih

theorem pending (heard : Heard l turns outputs l') : l'.pending = l.pending := by
  induction heard with
  | nil l => rfl
  | cons rest ih => exact ih

theorem even (heard : Heard l turns outputs l')
    (before : ∀ id, (l.transcript id).emitted = (l.transcript id).completion.length) (id : SeqId) :
    (l'.transcript id).emitted = (l'.transcript id).completion.length := by
  induction heard with
  | nil l => exact before id
  | @cons l l' turn turns outputs rest ih =>
      refine ih fun other => ?_
      by_cases same : other = turn.id
      · rw [same, Ledger.after_self]
        simp [Transcript.delivered, Transcript.fresh, Ledger.drafted, before turn.id]
      · rw [Ledger.after_of_ne same]
        exact before other

theorem members_after (named : l.Named) (members : ∀ t ∈ turn :: turns, t.id ∈ l.requests.values)
    (distinct : ((turn :: turns).map (·.id)).Nodup) :
    ∀ t ∈ turns, t.id ∈ (l.after turn).requests.values := by
  intro t later
  refine (named.mem_after (members turn List.mem_cons_self)).mpr
    ⟨members t (List.mem_cons_of_mem _ later), fun same => ?_⟩
  exact absurd (List.mem_map.mpr ⟨t, later, same⟩) (List.nodup_cons.mp distinct).1

theorem others (heard : Heard l turns outputs l') (named : l.Named)
    (members : ∀ turn ∈ turns, turn.id ∈ l.requests.values) (distinct : (turns.map (·.id)).Nodup)
    (outside : id ∉ turns.map (·.id)) : l'.transcript id = l.transcript id ∧
      (id ∈ l'.requests.values ↔ id ∈ l.requests.values) := by
  induction heard with
  | nil l => exact ⟨rfl, Iff.rfl⟩
  | @cons l l' turn turns outputs rest ih =>
      rw [List.map_cons, List.mem_cons, not_or] at outside
      obtain ⟨different, outside⟩ := outside
      obtain ⟨same, registered⟩ := ih (named.after turn) (members_after named members distinct)
        (List.nodup_cons.mp distinct).2 outside
      refine ⟨same.trans (Ledger.after_of_ne different), registered.trans ?_⟩
      rw [named.mem_after (members turn List.mem_cons_self)]
      simp [different]

/-- What is heard of a request that had a turn is the output of that turn. -/
theorem own (heard : Heard l turns outputs l') (named : l.Named)
    (members : ∀ turn ∈ turns, turn.id ∈ l.requests.values) (distinct : (turns.map (·.id)).Nodup)
    (among : turn ∈ turns) : l'.transcript turn.id = (l.drafted turn).delivered ∧
      (turn.id ∈ l'.requests.values ↔ turn.ending = none) ∧
      outputs.filter (·.requestId = l.name turn.id) = [l.output turn] := by
  induction heard with
  | nil l => cases among
  | @cons l l' first turns outputs rest ih =>
      obtain ⟨absent, distinct'⟩ := List.nodup_cons.mp distinct
      have named' := named.after first
      have members' := members_after named members distinct
      have member := members first List.mem_cons_self
      rcases List.mem_cons.mp among with rfl | later
      · obtain ⟨same, registered⟩ := rest.others named' members' distinct' absent
        refine ⟨same.trans (Ledger.after_self l turn), ?_, ?_⟩
        · rw [registered, named.mem_after member]
          simp [member]
        · have names := rest.names
          simp only [Ledger.name_after] at names
          have nothing := named.silent names
            (fun t taken => members t (List.mem_cons_of_mem _ taken)) member absent
          have first : (l.output turn).requestId = l.name turn.id := rfl
          rw [List.filter_cons_of_pos (by simp [first]), nothing]
      · have different : turn.id ≠ first.id := fun same =>
          absent (List.mem_map.mpr ⟨turn, later, same⟩)
        obtain ⟨transcript, registered, own⟩ := ih named' members' distinct' later
        rw [Ledger.name_after, Ledger.output_after different] at own
        refine ⟨?_, registered, ?_⟩
        · rw [transcript]
          simp only [Ledger.drafted, Ledger.after_of_ne different]
        · rw [List.filter_cons_of_neg, own]
          intro same
          have same : l.name first.id = l.name turn.id := of_decide_eq_true same
          exact different (named.unique member (members turn among) same).symm

end Heard

/-- The outputs of a sequence that goes on: its completion, and no end. -/
structure Going (own : List Output) (t : Transcript) : Prop where
  tokens : own.flatMap (·.tokens) = t.completion
  emitted : t.emitted = t.completion.length
  unended : ∀ o ∈ own, o.reason = none

/-- The outputs of a sequence that has ended: its completion, and why it ended in the last. -/
structure Gone (own : List Output) (t : Transcript) : Prop where
  tokens : own.flatMap (·.tokens) = t.completion
  emitted : t.emitted = t.completion.length
  last : ∃ front o, own = front ++ [o] ∧ (∀ o ∈ front, o.reason = none) ∧
    o.reason = t.reason ∧ o.reason.isSome

/-- A turn hands over its tokens, and tells whether the sequence ends. -/
theorem Going.after {own : List Output} (going : Going own (l.transcript turn.id)) :
    if turn.ending = none then Going (own ++ [l.output turn]) (l.drafted turn).delivered
    else Gone (own ++ [l.output turn]) (l.drafted turn).delivered := by
  obtain ⟨tokens, emitted, unended⟩ := going
  have fresh : (l.output turn).tokens = turn.tokens := by
    simp [Ledger.output, Ledger.drafted, Transcript.fresh, emitted]
  have all : (own ++ [l.output turn]).flatMap (·.tokens) = (l.drafted turn).delivered.completion := by
    simp [List.flatMap_append, tokens, fresh, Ledger.drafted, Transcript.delivered]
  have handed : (l.drafted turn).delivered.emitted = (l.drafted turn).delivered.completion.length := by
    simp [Ledger.drafted, Transcript.delivered, Transcript.fresh, emitted]
  split
  · rename_i goesOn
    refine ⟨all, handed, fun o among => ?_⟩
    rcases List.mem_append.mp among with before | last
    · exact unended o before
    · rw [List.mem_singleton.mp last]
      exact goesOn
  · rename_i ends
    obtain ⟨reason, ends⟩ := Option.ne_none_iff_exists'.mp ends
    refine ⟨all, handed, own, l.output turn, rfl, unended, ?_, ?_⟩
    · simp [Ledger.output, Ledger.drafted, Transcript.delivered, ends]
    · simp [Ledger.output, ends]

/-- What was heard of a sequence: its completion, and why it ended, if it is no request any more. -/
def Ledger.Voiced (l : Ledger) (id : SeqId) (own : List Output) : Prop :=
  if id ∈ l.requests.values then Going own (l.transcript id) else Gone own (l.transcript id)

theorem Ledger.Voiced.congr {own : List Output} (voiced : l.Voiced id own)
    (same : l'.transcript id = l.transcript id)
    (registered : id ∈ l'.requests.values ↔ id ∈ l.requests.values) : l'.Voiced id own := by
  unfold Voiced at *
  rw [same]
  simpa only [registered] using voiced

end PagedServing
