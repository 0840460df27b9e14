import PagedServing.Engine.Intake
import PagedServing.Engine.Lifecycle
import PagedServing.Proofs.Scheduler.Sessions

/-! # Services

A service is an engine at work. Its clients accept no delay: whatever they do happens between two
actions of the scheduling loop. The loop takes one command over, or runs one iteration of the
scheduler, or makes one call of a callback, or forgets one request, and then the clients may have
their turn again. A service keeps a record of all that its clients are told.
-/

namespace PagedServing

/-- What clients are told. -/
inductive Notice where
  /-- A request was accepted: its sequence, and its name. -/
  | accepted (id : SeqId) (requestId : String)
  /-- Tokens were handed over. -/
  | tokens (requestId : String) (tokens : List Int)
  /-- The end was told. -/
  | ended (requestId : String) (reason : FinishReason)
  /-- A request is in flight no more, so that its name may be used again. -/
  | forgotten (requestId : String)
  deriving Repr, DecidableEq

/-- The name that a notice is about. -/
@[simp]
def Notice.requestId : Notice → String
  | accepted _ requestId => requestId
  | tokens requestId _ => requestId
  | ended requestId _ => requestId
  | forgotten requestId => requestId

/-- Whether a notice tells of an acceptance. -/
@[simp]
def Notice.IsAcceptance : Notice → Prop
  | accepted _ _ => True
  | tokens _ _ | ended _ _ | forgotten _ => False

/-- What the scheduling loop is about to do. -/
inductive Phase where
  /-- It stands between two iterations. -/
  | idle
  /-- It takes commands over. Some requests were refused already. -/
  | draining (refused : List Output)
  /-- It hands the tokens of an output over. -/
  | giving (o : Output) (rest : List Output)
  /-- It tells of the end that comes with an output. -/
  | announcing (o : Output) (reason : FinishReason) (rest : List Output)
  /-- It forgets the request of an output. -/
  | forgetting (o : Output) (rest : List Output)

namespace Phase

/-- Outputs are to be delivered. -/
def toward : List Output → Phase
  | [] => idle
  | o :: rest => giving o rest

/-- The tokens of an output were handed over. -/
def behind (o : Output) (rest : List Output) : Phase :=
  match o.reason with
  | none => toward rest
  | some reason => announcing o reason rest

/-- The outputs that the loop has in hand and is not done with. -/
def outputs : Phase → List Output
  | idle => []
  | draining refused => refused
  | giving o rest | announcing o _ rest | forgetting o rest => o :: rest

/-- What clients have not been told of them. -/
def untold : Phase → List Output
  | idle => []
  | draining refused => refused
  | giving o rest => o :: rest
  | announcing o reason rest => { requestId := o.requestId, reason := some reason } :: rest
  | forgetting _ rest => rest

/-- Nobody was refused, and only what has an end is announced and forgotten. -/
def Proper : Phase → Prop
  | idle | giving _ _ => True
  | draining refused => refused = []
  | announcing o reason _ => o.reason = some reason
  | forgetting o _ => o.reason.isSome

@[simp]
theorem outputs_toward (os : List Output) : (toward os).outputs = os := by
  cases os <;> rfl

@[simp]
theorem untold_toward (os : List Output) : (toward os).untold = os := by
  cases os <;> rfl

theorem behind_of_unended {o : Output} (unended : o.reason = none) (rest : List Output) :
    behind o rest = toward rest := by
  simp [behind, unended]

theorem behind_of_ended {o : Output} {reason : FinishReason} (ended : o.reason = some reason)
    (rest : List Output) : behind o rest = announcing o reason rest := by
  simp [behind, ended]

theorem toward_proper (os : List Output) : (toward os).Proper := by
  cases os <;> trivial

theorem behind_proper (o : Output) (rest : List Output) : (behind o rest).Proper := by
  cases ended : o.reason with
  | none => exact behind_of_unended ended rest ▸ toward_proper rest
  | some reason => exact behind_of_ended ended rest ▸ ended

theorem outputs_behind (o : Output) (rest : List Output) :
    (behind o rest).outputs <:+ o :: rest := by
  cases ended : o.reason with
  | none =>
      rw [behind_of_unended ended, outputs_toward]
      exact List.suffix_cons o rest
  | some reason => exact behind_of_ended ended rest ▸ List.suffix_rfl

theorem mem_outputs_behind {o other : Output} (ended : other.reason ≠ none) (rest : List Output) :
    other ∈ (behind o rest).outputs ↔ other ∈ o :: rest := by
  cases last : o.reason with
  | none =>
      have different : other ≠ o := fun same => ended (same ▸ last)
      rw [behind_of_unended last, outputs_toward, List.mem_cons, or_iff_right different]
  | some reason => rw [behind_of_ended last, outputs]

/-- Handing tokens over leaves the tokens of the other outputs to be handed over. -/
theorem tokens_behind (o : Output) (rest : List Output) (requestId : String) :
    ((behind o rest).untold.filter (·.requestId = requestId)).flatMap (·.tokens) =
      (rest.filter (·.requestId = requestId)).flatMap (·.tokens) := by
  cases ended : o.reason with
  | none => rw [behind_of_unended ended, untold_toward]
  | some reason =>
      rw [behind_of_ended ended, untold, List.filter_cons]
      split <;> simp

theorem reasons_behind (o : Output) (rest : List Output) (requestId : String) :
    ((behind o rest).untold.filter (·.requestId = requestId)).filterMap (·.reason) =
      ((o :: rest).filter (·.requestId = requestId)).filterMap (·.reason) := by
  cases ended : o.reason with
  | none =>
      rw [behind_of_unended ended, untold_toward, List.filter_cons]
      split <;> simp [ended]
  | some reason =>
      rw [behind_of_ended ended, untold, List.filter_cons, List.filter_cons]
      split <;> simp_all

end Phase

/-- An engine, what its loop is about to do, and what clients were told. -/
structure Service (ω : Type) where
  engine : Engine ω
  phase : Phase := .idle
  record : List Notice := []

/-- What the clients and the scheduling loop of a service do. -/
inductive Move (ω : Type) where
  /-- A client constructs a sequence. -/
  | construct (d : Draft)
  /-- A client asks to have a sequence served. -/
  | submit (id : SeqId)
  /-- A client has a request cancelled. -/
  | cancel (requestId : String)
  /-- The loop acts, in its host. -/
  | tick (host : Host ω)

namespace Service

variable {ω : Type}

/-- The loop acts on the engine. A fault ends its iteration. -/
def act {α : Type} (s : Service ω) (action : Action (Engine ω) α) (next : α → Phase)
    (notices : List Notice) : Service ω :=
  match action s.engine with
  | .ok a engine => { engine, phase := next a, record := s.record ++ notices }
  | .error _ engine => { engine, phase := .idle, record := s.record ++ notices }

/-- An iteration of the scheduler on the device of the host. -/
def iterate (host : Host ω) : Action (Engine ω) (List Output) := do
  let result ← Engine.onDriven (Scheduler.Driven.step (some host.device))
  Engine.takeStats
  return result.outputs

/-- The next action of the loop. -/
def tick (host : Host ω) (s : Service ω) : Service ω :=
  match s.phase with
  | .idle => { s with phase := .draining [] }
  | .draining refused =>
    if s.engine.commands.isEmpty then
      s.act (iterate host) (fun outputs => .toward (refused ++ outputs)) []
    else
      s.act Engine.applyNext (fun more => .draining (refused ++ more)) []
  | .giving o rest =>
    s.act (Engine.giveTokens host o) (fun _ => .behind o rest)
      (if o.tokens.isEmpty then [] else [.tokens o.requestId o.tokens])
  | .announcing o reason rest =>
    s.act (Engine.announceEnd host o.requestId reason) (fun _ => .forgetting o rest)
      [.ended o.requestId reason]
  | .forgetting o rest =>
    s.act (Engine.forget o.requestId) (fun _ => .toward rest) [.forgotten o.requestId]

/-- The loop acts some times, and nobody else does anything. -/
def ticks (host : Host ω) : Nat → Service ω → Service ω
  | 0, s => s
  | n + 1, s => ticks host n (s.tick host)

/-- A move is made. -/
def perform (s : Service ω) : Move ω → Service ω
  | .construct d => { s with engine := (Engine.onScheduler (Scheduler.create d)).after s.engine }
  | .submit id =>
    match Engine.accept id s.engine with
    | .ok requestId engine =>
      { s with engine, record := s.record ++ [.accepted id requestId] }
    | .error _ engine => { s with engine }
  | .cancel requestId => { s with engine := (Engine.cancel requestId).after s.engine }
  | .tick host => s.tick host

/-- A move is proper if a draft suits the scheduler, if only what was constructed is submitted, and
    each sequence is accepted once at most, and if the host is one of those that are allowed. -/
def Proper (allowed : Host ω → Prop) (s : Service ω) : Move ω → Prop
  | .construct d => s.engine.scheduler.Takes d
  | .submit id => s.engine.scheduler.cache.Knows id ∧ ∀ requestId, .accepted id requestId ∉ s.record
  | .cancel _ => True
  | .tick host => allowed host

/-- A service begins with an engine without requests. -/
def opened (config : Config) (w : ω) : Service ω where
  engine := Engine.launch config w

/-- What services come to by proper moves. -/
inductive Reached (config : Config) (allowed : Host ω → Prop) : Service ω → Prop where
  | opened (w : ω) : Reached config allowed (opened config w)
  | moved {s : Service ω} {m : Move ω} (before : Reached config allowed s)
      (proper : s.Proper allowed m) : Reached config allowed (s.perform m)

end Service

end PagedServing
