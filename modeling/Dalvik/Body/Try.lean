/-
# Try ranges

A try range guards the code units from the start of its first instruction to the end of its last.
Ranges are kept as handles; `resolveTries` gives them their offsets, in ascending order, and refuses
those that cannot be written: ranges outside the code or too long, ranges without handlers, and a
handler after the one that catches everything.
-/
import Dalvik.Body.Edit
import Dalvik.Bytes.Narrow
import Dalvik.Key

namespace Dalvik

/-! ## 1. Resolved ranges -/

/-- Handlers by address: the typed ones in order, then the one that catches everything. -/
structure HandlerList where
  typed : List (String × UInt32) := []
  catchAll : Option UInt32 := none
  deriving DecidableEq, Repr, Inhabited

/-- A range of code units and its handlers. -/
structure ResolvedTry where
  start : UInt32
  count : UInt16
  handlers : HandlerList
  deriving DecidableEq, Repr, Inhabited

instance : Keyed HandlerList where
  key list :=
    Keyed.count list.typed.length ++
      (list.typed.flatMap fun (type, address) => key type ++ key address) ++ key list.catchAll

namespace Body

/-! ## 2. Adding and asking -/

/-- The offsets of the first and the last code unit of a range (`try_bounds`). -/
def tryBounds (b : Body) (t : TryRange) : Except Error (Nat × Nat) := do
  let start ← b.offsetOf t.first
  let last ← b.offsetOf t.last
  let i ← b.get t.last
  return (start, last + i.width - 1)

end Body

/-- Adds a range, all of whose handles have to be live; the bounds of all ranges are asked for
(`add_try`). -/
def Editor.addTry (t : TryRange) : Editor Unit := do
  t.handles.forM fun h => do let _ ← ask (·.get h)
  let _ ← ask (·.tryBounds t)
  (← get).tries.forM fun other => do let _ ← ask (·.tryBounds other)
  modify fun b => { b with tries := b.tries ++ [t] }

namespace Body

/-- Adds a range, all of whose handles have to be live. -/
def addTry (b : Body) (t : TryRange) : Except Error Body :=
  ((Editor.addTry t).outcome b).map (·.1)

/-- Whether an instruction begins inside one of some ranges. -/
def offsetInTry (b : Body) (offset : Nat) : List TryRange → Except Error Bool
  | [] => .ok false
  | t :: rest => do
    let (start, last) ← b.tryBounds t
    if start ≤ offset && offset ≤ last then return true else offsetInTry b offset rest

/-- Whether an instruction is guarded (`is_in_try`). -/
def isInTry (b : Body) (h : Handle) : Except Error Bool := do
  b.offsetInTry (← b.offsetOf h) b.tries

/-! ## 3. Resolving -/

/-- A range in words. -/
def rangeText (start last : Nat) : String :=
  s!"range 0x{Text.hex start}..=0x{Text.hex last}"

/-- The handlers of a range by address (`resolve_handlers`). -/
def resolveHandlers (b : Body) : List CatchHandler → Except Error HandlerList
  | [] => .ok {}
  | handler :: rest => do
    let address ← Bytes.narrow32 (← b.offsetOf handler.target)
    match handler.type?, rest with
    | some type, rest =>
      let list ← b.resolveHandlers rest
      return { list with typed := (type, address) :: list.typed }
    | none, [] => return { catchAll := some address }
    | none, _ =>
      throw (.malformedTryRange
        s!"catch-all handler at 0x{Text.hex address.toNat} is not the last handler")

/-- A range by offsets. -/
def resolveTry (b : Body) (t : TryRange) : Except Error ResolvedTry := do
  let (start, last) ← b.tryBounds t
  if b.codeUnits ≤ start || last < start then
    throw (.malformedTryRange s!"{rangeText start last} outside {b.codeUnits} code units")
  if t.handlers.isEmpty then
    throw (.malformedTryRange s!"{rangeText start last} has no handlers")
  let address ← Bytes.narrow32 start
  let length := last - start + 1
  if 0x10000 ≤ length then
    throw (.malformedTryRange s!"{rangeText start last} is too long")
  let handlers ← b.resolveHandlers t.handlers
  return { start := address, count := length.toUInt16, handlers }

/-- **Resolving.**  All ranges by offsets, those that start first coming first (`resolve_tries`). -/
def resolveTries (b : Body) : Except Error (List ResolvedTry) := do
  let resolved ← b.tries.mapM b.resolveTry
  return resolved.mergeSort fun s t => s.start ≤ t.start

/-- The lists whose keys have not been seen, the first of each key. -/
def firstLists : (seen : List (List UInt8)) → List HandlerList → List HandlerList
  | _, [] => []
  | seen, list :: rest =>
    if seen.contains (key list) then firstLists seen rest
    else list :: firstLists (key list :: seen) rest

/-- The handler lists of all ranges, one of each key, in the order of the ranges. -/
def distinctLists (tries : List ResolvedTry) : List HandlerList :=
  firstLists [] (tries.map (·.handlers))

/-- The number of different handler lists, by their keys (`handler_list_count`). -/
def handlerListCount (b : Body) : Except Error Nat := do
  let keys := (← b.resolveTries).map fun t => key t.handlers
  return (keys.mergeSort fun a b => (compare a b).isLE).eraseReps.length

end Body

end Dalvik
