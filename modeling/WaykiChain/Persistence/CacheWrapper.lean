import Mathlib

/-! # The layered cache fabric

`CCacheWrapper` and its typed stores are not in the source shown, so this module follows the
spec. A wrapper's content is a store mapping keys to values, `none` for an absent or erased key.
A scratch wrapper opened over a parent records its `Set`s and `Erase`s in program order; `Flush`
applies them to the parent, and dropping the scratch discards them.
-/

namespace WaykiChain.Persistence.CacheWrapper

/-- The content of a store as `Get` reads it. -/
abbrev Store (K V : Type) := K → Option V

/-- One `Set` (`some v`) or `Erase` (`none`) of a key. -/
abbrev Write (K V : Type) := K × Option V

variable {K V : Type} [DecidableEq K]

def Store.apply (s : Store K V) (w : Write K V) : Store K V := Function.update s w.1 w.2

def Store.applyAll (s : Store K V) (ws : List (Write K V)) : Store K V := ws.foldl Store.apply s

/-- Modelled from the spec: a scratch `CCacheWrapper` over its parent's content, with the writes
made through it so far. -/
structure CCacheWrapper (K V : Type) where
  base : Store K V
  writes : List (Write K V)

/-- `std::make_shared<CCacheWrapper>(&cwIn)`: an empty scratch over `cwIn`. -/
def CCacheWrapper.over (parent : Store K V) : CCacheWrapper K V := ⟨parent, []⟩

/-- `Get` through a scratch sees its own writes first, then the parent. -/
def CCacheWrapper.view (cw : CCacheWrapper K V) : Store K V := cw.base.applyAll cw.writes

def CCacheWrapper.write (cw : CCacheWrapper K V) (ws : List (Write K V)) : CCacheWrapper K V :=
  { cw with writes := cw.writes ++ ws }

/-- `Flush`: the parent's content becomes the scratch's view. -/
def CCacheWrapper.flush (cw : CCacheWrapper K V) : Store K V := cw.view

@[simp] theorem applyAll_nil (s : Store K V) : s.applyAll [] = s := rfl

@[simp] theorem applyAll_append (s : Store K V) (ws ws' : List (Write K V)) :
    s.applyAll (ws ++ ws') = (s.applyAll ws).applyAll ws' :=
  List.foldl_append _ _ _ _

@[simp] theorem view_over (s : Store K V) : (CCacheWrapper.over s).view = s := rfl

@[simp] theorem view_write (cw : CCacheWrapper K V) (ws : List (Write K V)) :
    (cw.write ws).view = cw.view.applyAll ws :=
  applyAll_append _ _ _

/-- Flushing a scratch opened over `s` after the writes `ws` is writing `ws` into `s` directly. -/
theorem flush_over_write (s : Store K V) (ws : List (Write K V)) :
    ((CCacheWrapper.over s).write ws).flush = s.applyAll ws := by
  simp [CCacheWrapper.flush]

/-- `scratch.Set(k, v); scratch.Flush()` leaves `v` under `k` in the parent. -/
theorem flush_set_get (s : Store K V) (ws : List (Write K V)) (k : K) (v : Option V) :
    ((CCacheWrapper.over s).write (ws ++ [(k, v)])).flush k = v := by
  simp [flush_over_write, Store.applyAll, Store.apply]

end WaykiChain.Persistence.CacheWrapper
