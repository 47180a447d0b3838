import DogStatsD.Client.Basic

/-!
# Handles

A client may be held by several parties. Each holds a handle, and the client is closed when the last
handle is given back.
-/

namespace DogStatsD

/-- A client and the handles on it. -/
structure Handles (τ : Type) where
  client : Client τ
  /-- For each handle ever made, whether it is still held. -/
  held : List Bool := [true]

namespace Handles

variable {τ : Type}

/-- Whether a handle was made and is still held. -/
def isHeld (h : Handles τ) (i : Nat) : Bool :=
  h.held.getD i false

/-- Hand out another handle. -/
def share (h : Handles τ) : Handles τ :=
  { h with held := h.held ++ [true] }

variable [Transport τ]

/-- Take a handle back. The client closes with the last one. -/
def release (h : Handles τ) (i : Nat) : Handles τ :=
  if h.isHeld i then
    let held := h.held.set i false
    { held, client := if held.any id then h.client else h.client.shutDown }
  else h

/-- Take every handle back that is still held. -/
def releaseAll (h : Handles τ) : Handles τ :=
  (List.range h.held.length).foldl release h

end Handles

end DogStatsD
