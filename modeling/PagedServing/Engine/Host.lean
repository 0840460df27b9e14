import PagedServing.Device
import PagedServing.Fault

/-! # Hosts

A host is what an engine is embedded in: the device that executes its batches, and the
callbacks through which its caller hears of tokens and of ends. All of them act on one
state, that of the host.
-/

namespace PagedServing

/-- A callback that acts on states `ω`. It may fail. -/
abbrev Callback (ω : Type) := ω → Except CallbackError Unit × ω

/-- The surroundings of an engine. -/
structure Host (ω : Type) where
  device : Device ω
  /-- Called with the tokens that a request produced. -/
  onTokens : Option (String → List Int → Callback ω) := none
  /-- Called with the reason for which a request ended. -/
  onEnd : Option (String → FinishReason → Callback ω) := none
  /-- Give up the device. -/
  shutdown : ω → ω := id
  /-- An execution in the background lasts until so many commands are queued. -/
  gate : Nat := 0

end PagedServing
