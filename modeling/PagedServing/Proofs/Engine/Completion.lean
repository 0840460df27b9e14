import PagedServing.Proofs.Engine.Truthfulness
import PagedServing.Proofs.Engine.Winding

/-! # Every request is completed exactly once

Clients may do whatever they like between any two actions of the loop, and use names again. As long
as callbacks do not fail, each request that was accepted is told all its tokens and then its end,
once, and its name is in flight until then.
-/

namespace PagedServing

variable {ω : Type} {config : Config}

/-- A host with both callbacks, neither of which fails. -/
structure Host.Attentive (host : Host ω) : Prop extends Host.Calm host where
  hears : host.onTokens.isSome
  awaits : host.onEnd.isSome

namespace Service

variable {s : Service ω} {id : SeqId} {requestId : String}

/-- What clients may have been told of a request: pieces of its completion, then its end, then nothing
    more. -/
inductive Story (requestId : String) (q : Sequence) : List Notice → Prop where
  | ongoing {tokens : List (List Int)} (part : tokens.flatten <+: q.completion) :
      Story requestId q (pieces requestId tokens)
  | ended {tokens : List (List Int)} {reason : FinishReason} (whole : tokens.flatten = q.completion)
      (finished : q.isFinished = true) (noted : q.finishReason = some reason) :
      Story requestId q (pieces requestId tokens ++ [.ended requestId reason])
  | over {tokens : List (List Int)} {reason : FinishReason} (whole : tokens.flatten = q.completion)
      (finished : q.isFinished = true) (noted : q.finishReason = some reason) :
      Story requestId q
        (pieces requestId tokens ++ [.ended requestId reason, .forgotten requestId])

/-- A sequence was accepted under a name, and the name is not forgotten since. -/
def Open (s : Service ω) (requestId : String) (id : SeqId) : Prop :=
  .accepted id requestId ∈ s.record ∧ .forgotten requestId ∉ told id requestId s.record

/-- What clients can rely on. -/
structure Reliable (s : Service ω) : Prop where
  /-- Whoever was posted can be taken in, and no output tells of a refusal. -/
  admitted : ∀ id ∈ s.engine.posted, ∃ m, Scheduler.add id s.engine.scheduler = .ok () m
  unrefused : ∀ refused, s.phase = .draining refused → refused = []
  /-- Whoever was accepted is told all its tokens and its end, once and in this order. -/
  story : ∀ id requestId, .accepted id requestId ∈ s.record →
    Story requestId (s.engine.scheduler.sequence id) (told id requestId s.record)
  /-- Those names are in flight, each once, of which a request is not forgotten. -/
  distinct : s.engine.live.Nodup
  live : ∀ requestId, requestId ∈ s.engine.live ↔ ∃ id, s.Open requestId id
  single : ∀ requestId id other, s.Open requestId id → s.Open requestId other → id = other
  /-- If there is nothing to do, then all have been told their ends. -/
  complete : s.engine.hasWork = false → ∀ id requestId, .accepted id requestId ∈ s.record →
    ∃ tokens reason, told id requestId s.record =
      pieces requestId tokens ++ [.ended requestId reason, .forgotten requestId]

theorem forgotten_not_mem_pieces (requestId : String) (tokens : List (List Int)) :
    Notice.forgotten requestId ∉ pieces requestId tokens := by
  simp [pieces]

theorem Tells.open_iff (tells : s.Tells id requestId) :
    .forgotten requestId ∉ told id requestId s.record ↔
      requestId ∈ s.engine.live ∧ (watch id requestId s.record).Current := by
  cases tells with
  | posted live _ watched =>
      rw [told, watched]
      exact iff_of_true List.not_mem_nil ⟨live, trivial⟩
  | ongoing live _ watched _ _ _ =>
      rw [told, watched]
      exact iff_of_true (forgotten_not_mem_pieces _ _) ⟨live, trivial⟩
  | ended live _ _ watched _ =>
      rw [told, watched]
      refine iff_of_true ?_ ⟨live, trivial⟩
      simp [Watch.notices, pieces]
  | forgotten watched closed _ =>
      refine iff_of_false ?_ ?_
      · simp [watched]
      · rintro ⟨live, current⟩
        exact closed current live

theorem Truthful.reliable (truthful : s.Truthful) (upright : s.Upright config) : s.Reliable := by
  constructor
  case admitted =>
    intro id among
    obtain ⟨m, run, -⟩ := upright.standing.took idleDevice among
    exact ⟨m, run⟩
  case unrefused =>
    intro refused phase
    simpa [Phase.Proper, phase] using upright.proper
  case story =>
    intro id requestId accepted
    cases truthful.tells id requestId accepted with
    | posted _ _ watched =>
        rw [told, watched]
        show Story requestId _ (pieces requestId [])
        exact .ongoing List.nil_prefix
    | ongoing _ _ watched whole _ _ =>
        rw [told, watched]
        exact .ongoing ⟨_, whole⟩
    | ended _ _ _ watched complete =>
        rw [told, watched]
        exact .ended complete.whole complete.finished complete.reason
    | forgotten watched _ complete =>
        rw [watched]
        exact .over complete.whole complete.finished complete.reason
  case distinct => exact upright.standing.distinct
  case live =>
    intro requestId
    refine ⟨truthful.held requestId, ?_⟩
    rintro ⟨id, accepted, unforgotten⟩
    exact ((truthful.tells id requestId accepted).open_iff.mp unforgotten).1
  case single =>
    intro requestId id other first second
    exact watch_unique ((truthful.tells id requestId first.1).open_iff.mp first.2).2
      ((truthful.tells other requestId second.1).open_iff.mp second.2).2
  case complete =>
    intro rests id requestId accepted
    -- nobody is in flight, which leaves one of the four cases
    have none : s.engine.live = [] := (upright.wound rests).hasWork.mp rests
    have landed : requestId ∉ s.engine.live := none ▸ List.not_mem_nil
    cases truthful.tells id requestId accepted with
    | posted live _ _ | ongoing live _ _ _ _ _ | ended live _ _ _ _ => exact absurd live landed
    | forgotten watched _ _ => exact ⟨_, _, watched⟩

theorem Reached.ticks {allowed : Host ω → Prop} {host : Host ω} (reached : Reached config allowed s)
    (may : allowed host) (n : Nat) : Reached config allowed (s.ticks host n) := by
  induction n generalizing s with
  | zero => exact reached
  | succ n ih => exact ih (.moved (m := .tick host) reached may)

/-- Whatever clients do between any two actions of the loop, they can rely on the service. If they do
    nothing more, then the loop ends all requests, and so does a drain from when the loop is idle. -/
theorem completed_exactly_once {allowed : Host ω → Prop}
    (attentive : ∀ host, allowed host → host.Attentive ∧ host.device.Valid)
    (reached : Reached config allowed s) :
    s.Reliable ∧ ∀ host, allowed host → ∃ n, let s' := s.ticks host n
      s'.Reliable ∧ s'.engine.hasWork = false ∧ (s.phase = .idle →
        ∀ timeout, Engine.drain host timeout s.engine = .ok true s'.engine) := by
  have valid : ∀ host, allowed host → host.device.Valid := fun host may => (attentive host may).2
  have calm : ∀ host, allowed host → host.Calm := fun host may => (attentive host may).1.toCalm
  have reliable : ∀ {s : Service ω}, Reached config allowed s → s.Reliable := fun reached =>
    (reached.truthful valid calm).reliable (reached.upright valid)
  refine ⟨reliable reached, fun host may => ?_⟩
  have drained : ∀ {s : Service ω}, Reached config allowed s → s.phase = .idle → _ :=
    fun reached idle => (reached.upright valid).drained (calm host may) (valid host may) idle
      (reached.unstranded valid calm)
  by_cases already : s.phase = .idle
  · obtain ⟨n, -, -, rests, drained⟩ := drained reached already
    exact ⟨n, reliable (reached.ticks may n), rests, fun _ => drained⟩
  · obtain ⟨m, idle⟩ := (reached.upright valid).rests (valid host may)
    have reached' := reached.ticks may m
    obtain ⟨n, -, -, rests, -⟩ := drained reached' idle
    refine ⟨m + n, ?_⟩
    rw [ticks_add]
    exact ⟨reliable (reached'.ticks may n), rests, fun idle => absurd idle already⟩

/-- A host that hears everything and does nothing about it. -/
def heeding : Host Unit where
  device := Scheduler.sevens
  onTokens := some fun _ _ w => (.ok (), w)
  onEnd := some fun _ _ w => (.ok (), w)

theorem heeding_attentive : heeding.Attentive where
  onTokens := by
    intro callback given requestId tokens w
    cases given
    rfl
  onEnd := by
    intro callback given requestId reason w
    cases given
    rfl
  hears := rfl
  awaits := rfl

/-- A sequence that is constructed for a request with a name. -/
def constructed : Service Unit :=
  (opened (Scheduler.smallConfig .swap true) ()).perform
    (.construct { prompt := [5], blockSize := 1, requestId := some "a" })

/-- Its request is cancelled while its first token is on its way. -/
def interrupted : Service Unit :=
  ((constructed.perform (.submit 0)).ticks heeding 3).perform (.cancel "a")

theorem completed_exactly_once_interrupted :
    interrupted.record = [.accepted 0 "a"] ∧ interrupted.Reliable ∧
      told 0 "a" (interrupted.ticks heeding 8).record =
        [.tokens "a" [7], .ended "a" .cancelled, .forgotten "a"] ∧
      ∃ n, (interrupted.ticks heeding n).engine.hasWork = false := by
  have attentive : ∀ host, host = heeding → host.Attentive ∧ host.device.Valid := by
    rintro host rfl
    exact ⟨heeding_attentive, Scheduler.sevens_valid⟩
  have begun : Reached (Scheduler.smallConfig .swap true) (· = heeding) constructed :=
    .moved (m := .construct _) (.opened ()) ⟨rfl, by decide⟩
  have submitted := Reached.moved (m := .submit 0) begun ⟨Nat.one_pos, fun _ => List.not_mem_nil⟩
  have reached : Reached (Scheduler.smallConfig .swap true) (· = heeding) interrupted :=
    .moved (m := .cancel "a") (submitted.ticks rfl 3) trivial
  obtain ⟨reliable, ends⟩ := completed_exactly_once attentive reached
  obtain ⟨n, -, rests, -⟩ := ends heeding rfl
  exact ⟨by decide +kernel, reliable, by decide +kernel, n, rests⟩

end Service

end PagedServing
