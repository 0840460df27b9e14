import PagedServing.Proofs.Pool.Holders

/-! # Labels of blocks

Registering a block puts a hash on it and lets it be found there. Nothing happens to the
references.
-/

namespace PagedServing.Pool

variable {p q : Pool} {held : Int → Nat} {b h : Int} {tokens : List Int}

theorem lookup?_eq_some_iff : p.lookup? h tokens = some b ↔
    p.registry.get? h = some b ∧ b ≠ -1 ∧ (p.block? b).map (·.tokens) = some tokens := by
  unfold lookup?
  cases found : p.registry.get? h with
  | none => simp
  | some b' =>
      cases named : p.block? b' with
      | none =>
          simp only [Option.bind_eq_bind, Option.bind_some, named, Option.bind_none, reduceCtorEq,
            Option.some.injEq, false_iff, not_and]
          rintro rfl
          simp [named]
      | some block =>
          simp only [Option.bind_eq_bind, Option.bind_some, named, Option.ite_none_right_eq_some,
            Option.some.injEq]
          constructor
          · rintro ⟨holds, rfl⟩
            simpa [named] using holds
          · rintro ⟨rfl, visible, holds⟩
            exact ⟨⟨visible, by simpa [named] using holds⟩, rfl⟩

/-- The block `b` carries the hash `h` now and is found under it. -/
structure Registered (p q : Pool) (b h : Int) : Prop where
  size : q.size = p.size
  free : q.free = p.free
  used : q.used = p.used
  refs : ∀ b', 0 ≤ b' → (q.entry b').refs = (p.entry b').refs
  hash : ∀ b', 0 ≤ b' → (q.entry b').hash = if b' = b then h else (p.entry b').hash
  registry : ∀ h', q.registry.get? h' = if h' = h then some b else p.registry.get? h'

/-- A block that is registered is noted to hold the tokens. -/
theorem register_inscribes (has : p.Has b) :
    (register b h tokens).Returns p fun _ q => p.Registered q b h ∧ ∀ b', 0 ≤ b' →
      (q.entry b').tokens = if b' = b then tokens else (p.entry b').tokens := by
  simp only [register, Action.returns_bind, Action.returns_get, Action.returns_demand,
    block?_of_has has, Option.some.injEq, exists_eq_left', Action.returns_set]
  let p' := p.updateBlock b fun x => { x with hash := h, tokens }
  have entry : ∀ b', 0 ≤ b' → { p' with registry := p'.registry.insert h b }.entry b' =
      if b' = b then { p.entry b with hash := h, tokens } else p.entry b' :=
    fun b' natural => (entry_congr rfl b').trans (entry_updateBlock _ has natural)
  refine ⟨?_, fun b' natural => by rw [entry b' natural]; split <;> rfl⟩
  constructor
  case size => exact updateBlock_size p b _
  case free => exact updateBlock_free p b _
  case used => exact updateBlock_used p b _
  case refs =>
    intro b' natural
    rw [entry b' natural]
    split
    · rename_i same
      rw [same]
    · rfl
  case hash =>
    intro b' natural
    rw [entry b' natural]
    split <;> rfl
  case registry => exact fun h' => by simp

theorem register_returns (has : p.Has b) :
    (register b h tokens).Returns p fun _ q => p.Registered q b h :=
  (register_inscribes has).weaken fun _ _ => And.left

theorem Balanced.relabelled (balanced : p.Balanced held) (size : q.size = p.size)
    (free : q.free = p.free) (used : q.used = p.used)
    (refs : ∀ b, 0 ≤ b → (q.entry b).refs = (p.entry b).refs) : q.Balanced held where
  has b positive := (has_congr size).mpr (balanced.has b positive)
  refs b has := by
    have has := (has_congr size).mp has
    rw [refs b has.1, balanced.refs b has]
  free_nodup := free ▸ balanced.free_nodup
  mem_free b := by
    rw [free, has_congr size]
    exact balanced.mem_free b
  used_nodup := used ▸ balanced.used_nodup
  mem_used b := by
    rw [used]
    exact balanced.mem_used b

theorem Registered.balanced (registered : p.Registered q b h) (balanced : p.Balanced held) :
    q.Balanced held :=
  balanced.relabelled registered.size registered.free registered.used registered.refs

end PagedServing.Pool
