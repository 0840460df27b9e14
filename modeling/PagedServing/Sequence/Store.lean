import PagedServing.Sequence.Basic

/-! # The store of sequences

Every sequence that was ever constructed, under its number. Queues and batches hold
numbers, so a change of a sequence shows wherever it is queued.
-/

namespace PagedServing

/-- The number of a sequence. -/
abbrev SeqId := Nat

/-- What a sequence is made from. -/
structure Draft where
  prompt : List Int
  sampling : Sampling := .standard
  blockSize : Int
  /-- The name of the request; its number, if the caller gives none. -/
  requestId : Option String := none
  /-- The time of arrival; the time of construction, if the caller gives none. -/
  arrival : Option Rat := none

/-- All sequences, and the clock that arrivals are read from. -/
structure Store where
  entries : List Sequence := []
  /-- The next reading of the clock. -/
  clock : Rat := 1000000

namespace Store

/-- The sequence of a number. -/
def get (s : Store) (id : SeqId) : Sequence :=
  s.entries.getD id default

/-- Change the sequence of a number. -/
def update (s : Store) (id : SeqId) (f : Sequence → Sequence) : Store :=
  { s with entries := s.entries.modify id f }

/-- The number that the next sequence will have. -/
def nextId (s : Store) : SeqId :=
  s.entries.length

/-- Construct a sequence from a draft. A refused draft uses up neither a number nor a
    reading of the clock. -/
def create (s : Store) (d : Draft) : Except Fault (Store × Sequence) :=
  if prompt : d.prompt = [] then
    .error .emptyPrompt
  else if size : d.blockSize ≤ 0 then
    .error (.blockSizeNotPositive d.blockSize)
  else
    let sequence : Sequence :=
      { id := s.nextId
        requestId := d.requestId.getD (toString s.nextId)
        blockSize := d.blockSize.toNat
        prompt := d.prompt
        arrival := d.arrival.getD s.clock
        sampling := d.sampling
        blockSize_pos := by omega
        prompt_ne_nil := prompt }
    .ok
      ({ entries := s.entries ++ [sequence]
         clock := if d.arrival.isNone then s.clock + 1 else s.clock },
        sequence)

/-- A change is seen under the number it was made for. -/
theorem get_update_self {s : Store} {id : SeqId} (f : Sequence → Sequence)
    (h : id < s.entries.length) : (s.update id f).get id = f (s.get id) := by
  simp [get, update, List.getD_eq_getElem?_getD, h]

/-- A change is seen under no other number. -/
theorem get_update_of_ne {s : Store} {id other : SeqId} (f : Sequence → Sequence)
    (h : other ≠ id) : (s.update id f).get other = s.get other := by
  simp [get, update, List.getD_eq_getElem?_getD, Ne.symm h]

end Store

end PagedServing
